import KaidaDB.Crates.Reference
import KaidaDB.Storage.Proof.LogFacts

/-!
# Recovery from a torn tail

A crash in the middle of `append_entry` leaves a strict prefix `p` of an entry's line behind the
complete ones. `recovers_iff_utf8`: opening the log rebuilds what it should exactly when `p` is
valid UTF-8; cut inside a character, `reader.lines()` fails and the index does not open
(`not_recovers_inside_char`).
-/

namespace KaidaDB

open Std Index

variable {X : Crates}

/-- The entries a log with the tail `p` of `e`'s line stands for. -/
def recoverable (X : Crates) (es : List LogEntry) (e : LogEntry) (p : Bytes) : List LogEntry :=
  if p = Utf8.encode (X.jsonToString e) then es ++ [e] else es

/-- Opening the complete lines of `es` with the tail `p` behind them succeeds and rebuilds `es`, with
`e` if `p` is its complete text. -/
def Recovers (X : Crates) (es : List LogEntry) (e : LogEntry) (p : Bytes) : Prop :=
  ∃ state entries log, openLog X (logBytes X es ++ p) = .ok (state, entries, log) ∧
    state = replayLog (recoverable X es e p)

/-- What opening makes of a log with a tail that is valid UTF-8: only the complete text of the entry
stays, and without a newline. -/
theorem openLog_tail (hX : X.Lawful) {e : LogEntry} {p : Bytes} {l : List Char}
    (hp : p <+: entryLine X e) (hne : p ≠ entryLine X e) (hl : Utf8.decode p = some l)
    (es : List LogEntry) :
    openLog X (logBytes X es ++ p) = .ok (replayLog (recoverable X es e p),
      (recoverable X es e p).length,
      if p = Utf8.encode (X.jsonToString e) then logBytes X es ++ p else logBytes X es) := by
  have hpre := prefix_text hX hp hne hl
  obtain rfl := Utf8.decode_eq_some.1 hl
  unfold recoverable
  by_cases hfull : l = X.jsonToString e
  · subst hfull
    rw [if_pos rfl, if_pos rfl, openLog_unterminated hX, List.length_append]
    rfl
  · have henc : Utf8.encode l ≠ Utf8.encode (X.jsonToString e) := fun h =>
      hfull (Utf8.encode_injective h)
    rw [if_neg henc, if_neg henc]
    by_cases hnil : l = []
    · subst hnil
      rw [Utf8.encode_nil, List.append_nil, openLog_logBytes hX]
    · exact openLog_torn hX es hpre hnil hfull

/-- **Recovery accepts exactly the cuts between characters.** -/
theorem recovers_iff_utf8 (hX : X.Lawful) (es : List LogEntry) (e : LogEntry) (p : Bytes)
    (hp : p <+: entryLine X e) (hne : p ≠ entryLine X e) :
    Recovers X es e p ↔ (Utf8.decode p).isSome := by
  cases hl : Utf8.decode p with
  | some l => exact iff_of_true ⟨_, _, _, openLog_tail hX hp hne hl es, rfl⟩ rfl
  | none =>
    refine iff_of_false ?_ (by simp)
    rintro ⟨state, entries, log, hopen, -⟩
    have hp0 : p ≠ [] := by
      rintro rfl
      simp [Utf8.decode] at hl
    rw [openLog_invalid hX (nl_not_mem_start hX hp hne) hp0 hl] at hopen
    cases hopen

/-- The removal of the key `é`, cut after the first of the two bytes of its `é`. -/
def tornInsideChar : Bytes := (entryLine .reference (.deleteManifest "é")).take 20

theorem recovers_iff_utf8_ascii :
    Recovers .reference [] (.deleteManifest "a") (Utf8.encode ['\x7b', '"'])
      ↔ (Utf8.decode (Utf8.encode ['\x7b', '"'])).isSome :=
  recovers_iff_utf8 Crates.reference_lawful [] (.deleteManifest "a") _ (by decide) (by decide)

/-- A cut inside a character: opening fails. -/
theorem not_recovers_inside_char :
    ¬ ∀ (es : List LogEntry) (e : LogEntry) (p : Bytes), p <+: entryLine .reference e →
      p ≠ entryLine .reference e → Recovers .reference es e p := by
  intro h
  obtain ⟨state, entries, log, hopen, -⟩ :=
    h [] (.deleteManifest "é") tornInsideChar (by decide) (by decide)
  have herr : openLog .reference (logBytes .reference [] ++ tornInsideChar)
      = .error (.error (.io "stream did not contain valid UTF-8")) := by
    have hline : Lines.rawLines tornInsideChar = [tornInsideChar] := by decide
    have hread : Lines.readLine tornInsideChar = none := by decide
    rw [openLog, show logBytes .reference [] ++ tornInsideChar = tornInsideChar from rfl, hline,
      replayLines, hread]
    rfl
  rw [herr] at hopen
  cases hopen

end KaidaDB
