import KaidaDB.Tui.Upload

/-!
# Progress of an upload

When a file is done its bytes are added to those of the files before it, but the counter of the current
file keeps them as well until the next file starts. So what is shown is truthful exactly if no file that is
done has had bytes counted as sent, and none are left over from an earlier upload.
-/

namespace KaidaDB

namespace UploadState

/-- `Truthful` event by event, after files of `started` bytes have been started. -/
def Steady (s : UploadState) (started : Nat) : List UploadEvent → Prop
  | [] | .finished :: _ => s.overallSent ≤ started
  | event :: events => s.overallSent ≤ started ∧ s.overallSent ≤ (s.onEvent event).overallSent ∧
    Steady (s.onEvent event) (started + startedBytes [event]) events

variable {s : UploadState} {started : Nat} {r : List UploadEvent}

theorem startedBytes_cons (event : UploadEvent) (events : List UploadEvent) :
    startedBytes (event :: events) = startedBytes [event] + startedBytes events := by
  simp [startedBytes]

theorem steady_cons {event : UploadEvent} (h : event ≠ .finished) :
    s.Steady started (event :: r) ↔ s.overallSent ≤ started ∧
      s.overallSent ≤ (s.onEvent event).overallSent ∧
      (s.onEvent event).Steady (started + startedBytes [event]) r := by
  cases event with
  | finished => exact absurd rfl h
  | _ => exact Iff.rfl

theorem drain_cons {event : UploadEvent} (h : event ≠ .finished) (closed : Bool)
    (events : List UploadEvent) : s.drainUploadEvents closed (event :: events)
      = (s.onEvent event).drainUploadEvents closed events := by
  cases event with
  | finished => exact absurd rfl h
  | _ => rfl

theorem steady_le {events : List UploadEvent} (h : s.Steady started events) :
    s.overallSent ≤ started := by
  cases events with
  | nil => exact h
  | cons event events =>
    by_cases hf : event = .finished
    · subst hf
      exact h
    · exact ((steady_cons hf).1 h).1

/-- From the prefixes to the single events. -/
theorem steady_iff {events : List UploadEvent} : s.Steady started events ↔
    (∀ seen, seen <+: events →
      (s.drainUploadEvents false seen).overallSent ≤ started + startedBytes seen) ∧
    ∀ seen event, seen ++ [event] <+: events → (s.drainUploadEvents false seen).overallSent ≤
      (s.drainUploadEvents false (seen ++ [event])).overallSent := by
  induction events generalizing s started with
  | nil =>
    constructor
    · intro h
      refine ⟨fun seen hseen => ?_, fun seen event hseen => ?_⟩
      · rw [List.prefix_nil.1 hseen]
        exact h
      · exact absurd (List.prefix_nil.1 hseen) (by simp)
    · rintro ⟨hbounded, -⟩
      exact hbounded [] (List.prefix_refl [])
  | cons first events ih =>
    by_cases hf : first = .finished
    · -- the counters do not change any more
      subst hf
      have hdrain : ∀ seen, seen <+: .finished :: events →
          (s.drainUploadEvents false seen).overallSent = s.overallSent := by
        intro seen hseen
        cases seen with
        | nil => rfl
        | cons event seen =>
          obtain ⟨rfl, -⟩ := List.cons_prefix_cons.1 hseen
          rfl
      constructor
      · intro h
        refine ⟨fun seen hseen => ?_, fun seen event hseen => ?_⟩
        · rw [hdrain seen hseen]
          exact Nat.le_trans h (Nat.le_add_right _ _)
        · have hbefore := hdrain _ ((List.prefix_append seen [event]).trans hseen)
          exact Nat.le_of_eq (hbefore.trans (hdrain _ hseen).symm)
      · rintro ⟨hbounded, -⟩
        exact hbounded [] List.nil_prefix
    · rw [steady_cons hf, ih]
      constructor
      · rintro ⟨hle, hstep, hbounded, hincreasing⟩
        refine ⟨fun seen hseen => ?_, fun seen event hseen => ?_⟩
        · cases seen with
          | nil => exact hle
          | cons event seen =>
            obtain ⟨rfl, htail⟩ := List.cons_prefix_cons.1 hseen
            rw [drain_cons hf, startedBytes_cons, ← Nat.add_assoc]
            exact hbounded seen htail
        · cases seen with
          | nil =>
            obtain ⟨rfl, -⟩ := List.cons_prefix_cons.1 hseen
            rw [List.nil_append, drain_cons hf]
            exact hstep
          | cons event' seen =>
            obtain ⟨rfl, htail⟩ := List.cons_prefix_cons.1 hseen
            rw [List.cons_append, drain_cons hf, drain_cons hf]
            exact hincreasing seen event htail
      · rintro ⟨hbounded, hincreasing⟩
        refine ⟨hbounded [] List.nil_prefix, ?_, fun seen hseen => ?_, fun seen event hseen => ?_⟩
        · have := hincreasing [] first (List.cons_prefix_cons.2 ⟨rfl, List.nil_prefix⟩)
          rwa [List.nil_append, drain_cons hf] at this
        · have := hbounded (first :: seen) (List.cons_prefix_cons.2 ⟨rfl, hseen⟩)
          rwa [drain_cons hf, startedBytes_cons, ← Nat.add_assoc] at this
        · have := hincreasing (first :: seen) event (List.cons_prefix_cons.2 ⟨rfl, hseen⟩)
          rwa [List.cons_append, drain_cons hf, drain_cons hf] at this

theorem truthful_iff {events : List UploadEvent} : s.Truthful events ↔ s.Steady 0 events := by
  rw [steady_iff]
  simp only [Nat.zero_add]
  exact ⟨fun h => ⟨h.bounded, h.increasing⟩, fun h => ⟨h.1, h.2⟩⟩

/-! ## One file -/

/-- The chunks of the current file. -/
theorem steady_counts {counts : List Nat} (hs : s.overallSent ≤ started)
    (hsent : ∀ n ∈ counts, s.currentBytesSent ≤ n) (hincreasing : counts.Pairwise (· ≤ ·))
    (hle : ∀ n ∈ counts, s.doneBytes + n ≤ started) :
    s.Steady started (counts.map .chunkSent ++ r) ↔
      ({ s with currentBytesSent := counts.getLastD s.currentBytesSent } : UploadState).Steady
        started r := by
  induction counts generalizing s with
  | nil => rfl
  | cons n counts ih =>
    obtain ⟨hn, hcounts⟩ := List.pairwise_cons.1 hincreasing
    rw [List.map_cons, List.cons_append, steady_cons (by simp),
      show startedBytes [.chunkSent n] = 0 from rfl, Nat.add_zero]
    have hstep : s.overallSent ≤ (s.onEvent (.chunkSent n)).overallSent :=
      Nat.add_le_add_left (hsent n (.head _)) _
    rw [ih (s := s.onEvent (.chunkSent n)) (hle n (.head _)) hn hcounts fun k hk => hle k (.tail _ hk)]
    simp only [hs, hstep, true_and]
    rw [List.getLastD_cons]
    exact Iff.rfl

/-- All counts are 0 if the last one is. -/
theorem getLastD_eq_zero {counts : List Nat} (h : counts.Pairwise (· ≤ ·)) :
    counts.getLastD 0 = 0 ↔ ∀ n ∈ counts, n = 0 := by
  induction counts with
  | nil => simp
  | cons n counts ih =>
    obtain ⟨hn, hcounts⟩ := List.pairwise_cons.1 h
    rw [List.getLastD_cons]
    cases counts with
    | nil => simp
    | cons k counts =>
      have hlast : (k :: counts).getLastD n = (k :: counts).getLastD 0 := by
        rw [List.getLastD_cons, List.getLastD_cons]
      rw [hlast, ih hcounts, List.forall_mem_cons (a := n)]
      refine ⟨fun hall => ⟨?_, hall⟩, fun hall => hall.2⟩
      have := hn k (.head _)
      have := hall k (.head _)
      omega

/-- Between two files what is counted is what has been started. -/
structure Level (s : UploadState) (started : Nat) : Prop where
  done : s.doneBytes = started
  sent : s.currentBytesSent = 0

theorem Level.le (h : s.Level started) : s.overallSent ≤ started := by
  rw [overallSent, h.done, h.sent]
  exact Nat.le_refl _

/-- A file is started and some chunks of it are sent. -/
theorem Level.transfer (h : s.Level started) (key : String) (transfer : Transfer) :
    ∃ s' : UploadState, s'.doneBytes = started ∧ s'.currentBytesTotal = transfer.totalBytes ∧
      s'.currentBytesSent = transfer.counts.getLastD 0 ∧
      (s.Steady started (transfer.events key ++ r) ↔
        s'.Steady (started + transfer.totalBytes) r) := by
  refine ⟨{ s.onEvent (.started key transfer.totalBytes) with
    currentBytesSent := transfer.counts.getLastD 0 }, h.done, rfl, rfl, ?_⟩
  rw [Transfer.events, List.cons_append, steady_cons (by simp)]
  have hcounts := @steady_counts (s.onEvent (.started key transfer.totalBytes))
    (started + transfer.totalBytes) r transfer.counts (by simp [overallSent, onEvent, h.done]) (fun n _ => Nat.zero_le n) transfer.increasing
    fun n hn => by
      have := transfer.le n hn
      simp only [onEvent, h.done]
      omega
  have hstep : s.overallSent ≤ (s.onEvent (.started key transfer.totalBytes)).overallSent := by
    simp [overallSent, onEvent, h.sent]
  simp only [h.le, hstep, true_and]
  exact hcounts

/-- A file whose upload has failed. -/
theorem Level.failed (h : s.Level started) (key : String) (transfer : Transfer) (error : String) :
    ((Attempt.failed transfer error).Silent → ∃ s' : UploadState,
      s'.Level (started + transfer.totalBytes) ∧
      (s.Steady started ((Attempt.failed transfer error).events key ++ r) ↔
        s'.Steady (started + transfer.totalBytes) r)) ∧
    (¬ (Attempt.failed transfer error).Silent →
      ¬ s.Steady started ((Attempt.failed transfer error).events key ++ r)) := by
  obtain ⟨s', hdone, htotal, hsent, hsteady⟩ :=
    h.transfer (r := .fileFailed key error :: r) key transfer
  rw [Attempt.events, List.append_assoc, List.singleton_append, hsteady]
  constructor
  · intro hsilent
    have hlast : s'.currentBytesSent = 0 := by
      rw [hsent, getLastD_eq_zero transfer.increasing]
      exact hsilent
    refine ⟨s'.onEvent (.fileFailed key error), ⟨?_, hlast⟩, ?_⟩
    · simp [onEvent, hdone, htotal]
    · rw [steady_cons (by simp)]
      simp [overallSent, onEvent, hdone, hlast, htotal, startedBytes]
  · -- what was sent of it counts besides the whole file
    intro hsilent hsteady
    have hlast : s'.currentBytesSent ≠ 0 := by
      rw [hsent, Ne, getLastD_eq_zero transfer.increasing]
      exact hsilent
    rw [steady_cons (by simp)] at hsteady
    have hle := steady_le hsteady.2.2
    simp only [overallSent, onEvent, hdone, htotal] at hle
    have hnone : startedBytes [.fileFailed key error] = 0 := rfl
    omega

/-- A file whose upload is over: nothing of it may have been counted as sent. -/
theorem Level.attempt (h : s.Level started) (key : String) (attempt : Attempt) :
    (attempt.Silent → ∃ s' : UploadState, s'.Level (started + attempt.totalBytes) ∧
      (s.Steady started (attempt.events key ++ r) ↔
        s'.Steady (started + attempt.totalBytes) r)) ∧
    (¬ attempt.Silent → ¬ s.Steady started (attempt.events key ++ r)) := by
  cases attempt with
  | unreadable error =>
    -- as if it had failed at once
    obtain ⟨hsilent, -⟩ := h.failed (r := r) key ⟨0, [], nofun, .nil⟩ error
    exact ⟨fun _ => hsilent nofun, fun hnot => absurd trivial hnot⟩
  | completed transfer =>
    obtain ⟨s', hdone, htotal, hsent, hsteady⟩ :=
      h.transfer (r := .fileCompleted :: r) key transfer
    rw [Attempt.events, List.append_assoc, List.singleton_append, hsteady]
    constructor
    · intro hsilent
      have hzero : transfer.totalBytes = 0 := hsilent
      have hlast : s'.currentBytesSent = 0 := by
        rw [hsent, getLastD_eq_zero transfer.increasing]
        intro n hn
        have := transfer.le n hn
        omega
      refine ⟨s'.onEvent .fileCompleted, ⟨?_, ?_⟩, ?_⟩
      · simp [onEvent, hdone, htotal, Attempt.totalBytes]
      · exact htotal.trans hzero
      · rw [steady_cons (by simp)]
        simp [overallSent, onEvent, hdone, hlast, htotal, hzero, startedBytes, Attempt.totalBytes]
    · -- the bytes of the file count twice
      intro hsilent hsteady
      have hbytes : transfer.totalBytes ≠ 0 := hsilent
      rw [steady_cons (by simp)] at hsteady
      have hle := steady_le hsteady.2.2
      simp only [overallSent, onEvent, hdone, htotal] at hle
      have hnone : startedBytes [.fileCompleted] = 0 := rfl
      omega
  | failed transfer error => exact h.failed key transfer error

/-! ## The batch -/

theorem Level.files {files : List (String × Attempt)} (h : s.Level started)
    (hrest : ∀ (s' : UploadState) started', s'.Level started' → s'.Steady started' r) :
    s.Steady started (files.flatMap (fun file => file.2.events file.1) ++ r) ↔
      ∀ file ∈ files, file.2.Silent := by
  induction files generalizing s started with
  | nil => simp [hrest s started h]
  | cons file files ih =>
    rw [List.flatMap_cons, List.append_assoc, List.forall_mem_cons]
    by_cases hsilent : file.2.Silent
    · obtain ⟨s', hlevel, hsteady⟩ := (h.attempt file.1 file.2).1 hsilent
      rw [hsteady, ih hlevel]
      simp [hsilent]
    · exact iff_of_false ((h.attempt file.1 file.2).2 hsilent) fun hall => hsilent hall.1

/-- A file in which the user cancels, and the end. -/
theorem Level.cancelled (h : s.Level started) (cancelled : Option (String × Transfer)) :
    s.Steady started (cancelled.elim [] (fun file => file.2.events file.1) ++ [.finished]) := by
  cases cancelled with
  | none => exact h.le
  | some file =>
    obtain ⟨s', hdone, htotal, hsent, hsteady⟩ :=
      h.transfer (r := [.finished]) file.1 file.2
    refine hsteady.2 ?_
    show s'.overallSent ≤ _
    rw [overallSent, hdone, hsent]
    refine Nat.add_le_add_left ?_ _
    cases hcounts : file.2.counts with
    | nil => exact Nat.zero_le _
    | cons n counts =>
      refine file.2.le _ ?_
      rw [List.getLastD_eq_getLast?, hcounts, List.getLast?_eq_some_getLast (by simp),
        Option.getD_some]
      exact List.getLast_mem _

end UploadState

/-- **The progress shown is truthful** exactly if nothing is left over from an earlier upload and no file
that is done has had bytes counted as sent. -/
theorem upload_progress_iff (s : UploadState) (sizes : List Nat) (batch : Batch) :
    (s.beginUpload sizes).Truthful batch.events ↔
      s.currentBytesSent = 0 ∧ ∀ file ∈ batch.files, file.2.Silent := by
  rw [UploadState.truthful_iff]
  by_cases hzero : s.currentBytesSent = 0
  · have hlevel : (s.beginUpload sizes).Level 0 := ⟨rfl, hzero⟩
    rw [Batch.events, List.append_assoc, hlevel.files fun s' _ h => h.cancelled batch.cancelled]
    simp [hzero]
  · refine iff_of_false (fun h => hzero ?_) fun h => hzero h.1
    have hle := UploadState.steady_le h
    simpa [UploadState.overallSent, UploadState.beginUpload] using hle

/-- When a file of ten bytes is complete, twenty are shown. -/
theorem upload_progress_overshoots :
    ¬ ∀ (sizes : List Nat) (batch : Batch),
      (UploadState.new.beginUpload sizes).Truthful batch.events := by
  intro h
  have hbounded := (h [10] ⟨[("a", .completed (.ofFile 10 2))], none⟩).bounded
    [.started "a" 10, .chunkSent 0, .chunkSent 10, .fileCompleted] (by
      exact ⟨[.finished], rfl⟩)
  exact absurd hbounded (by decide)

end KaidaDB
