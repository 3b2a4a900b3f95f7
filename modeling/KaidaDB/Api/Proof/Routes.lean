import KaidaDB.Api.Routes
import KaidaDB.Api.Proof.LongStreams

/-!
# Where streams are routed to

A path with the ending of a playlist is routed to it, whatever its stream id is, except that the media
playlist is looked for behind the last `/variant/` (`variantPath?_iff`), which is another one than that
before the variant id if this is `variant`. Streams with a dot in their id are not deleted. With these
two exceptions each stream is routed to (`stream_routing_iff`).
-/

namespace KaidaDB

variable {path s v p q r x : String}

/-! ## Endings -/

theorem stripSuffix?_append : stripSuffix? (r ++ p) p = some r := stripSuffix?_iff.2 rfl

/-- A path with one ending has no other one that disagrees with it. -/
theorem stripSuffix?_none (hpq : ¬ p.toList <:+ q.toList) (hqp : ¬ q.toList <:+ p.toList) :
    stripSuffix? (x ++ q) p = none := by
  rw [Option.eq_none_iff_forall_ne_some]
  intro r hr
  have heq := congrArg String.toList (stripSuffix?_iff.1 hr)
  rw [String.toList_append, String.toList_append] at heq
  have hq : q.toList <:+ x.toList ++ q.toList := List.suffix_append _ _
  have hp : p.toList <:+ x.toList ++ q.toList := heq ▸ List.suffix_append _ _
  rcases Nat.le_total p.toList.length q.toList.length with hle | hle
  · exact hpq (List.suffix_of_suffix_length_le hp hq hle)
  · exact hqp (List.suffix_of_suffix_length_le hq hp hle)

/-- A path without a dot has no ending with one. -/
theorem stripSuffix?_dot (hpath : '.' ∉ path.toList) (hp : '.' ∈ p.toList) :
    stripSuffix? path p = none := by
  rw [Option.eq_none_iff_forall_ne_some]
  intro r hr
  rw [stripSuffix?_iff.1 hr, String.toList_append] at hpath
  exact hpath (List.mem_append_right _ hp)

/-! ## The variant's playlist -/

theorem laterVariant_iff {b : List Char} :
    "/variant/".toList <:+: "variant/".toList ++ b ↔ "/variant/".toList <:+: '/' :: b := by
  simp [List.infix_cons_iff]

/-- **The paths of media playlists** are those with nothing more like them behind the variant. -/
theorem variantPath?_iff :
    variantPath? path = some (s, v) ↔ path = variantPath s v ∧ ¬ LaterVariant v := by
  have hne : "/variant/".toList ≠ [] := by decide
  constructor
  · intro h
    rw [variantPath?] at h
    split_ifs at h
    obtain ⟨pos, hpos, h⟩ := Option.bind_eq_some_iff.1 h
    obtain ⟨v', hv, heq⟩ := Option.map_eq_some_iff.1 h
    obtain ⟨rfl, rfl⟩ := Prod.mk.inj heq
    obtain ⟨a, b, hpath, rfl, hlast⟩ := Replace.rfind?_last hne hpos
    have hafter : path.toList.drop (a.length + "/variant/".toList.length) = b := by
      rw [hpath, ← List.append_assoc, List.drop_left' (by simp)]
    rw [hafter] at hv
    have hb : b = v'.toList ++ "/playlist.m3u8".toList := by
      have := congrArg String.toList (stripSuffix?_iff.1 hv)
      rwa [String.toList_ofList, String.toList_append] at this
    constructor
    · refine String.toList_inj.1 ?_
      rw [hpath, List.take_left]
      simp [variantPath, hb]
    · intro hlater
      rw [LaterVariant, ← hb] at hlater
      exact hlast (laterVariant_iff.2 hlater)
  · rintro ⟨rfl, hlast⟩
    have hpath : (variantPath s v).toList = s.toList ++ ("/variant/".toList ++
        (v.toList ++ "/playlist.m3u8".toList)) := by
      simp [variantPath]
    have hend : endsWith (variantPath s v) "/playlist.m3u8" = true :=
      endsWith_iff.2 ⟨_, String.toList_append⟩
    have hpos : Replace.rfind? "/variant/".toList (variantPath s v).toList = some s.toList.length := by
      rw [hpath]
      exact Replace.rfind?_append (c := '/') (q := "variant/".toList) fun hin =>
        hlast (laterVariant_iff.1 hin)
    rw [variantPath?, if_pos hend, hpos, Option.bind_some]
    dsimp only
    rw [hpath, List.take_left, ← List.append_assoc, List.drop_left' (by simp), String.ofList_append,
      String.ofList_toList, String.ofList_toList, String.ofList_toList, stripSuffix?_append]
    rfl

/-- A variant id without a slash is followed by another `/variant/` only if it is the word itself. -/
theorem laterVariant_plain (hv : '/' ∉ v.toList) : LaterVariant v ↔ v = "variant" := by
  constructor
  · intro hlater
    rcases List.infix_cons_iff.1 hlater with hstart | hin
    · obtain ⟨b, hb⟩ := hstart
      have hrest : "variant".toList ++ '/' :: b = v.toList ++ '/' :: "playlist.m3u8".toList := by
        simpa using hb
      have hword := congrArg (List.takeWhile (· ≠ '/')) hrest
      rw [Separated.takeWhile_append (by decide), Separated.takeWhile_append hv] at hword
      exact (String.toList_inj.1 hword).symm
    · -- there is one slash, and two are needed
      have hcount := hin.sublist.count_le '/'
      rw [List.count_append, List.count_eq_zero_of_not_mem hv] at hcount
      exact absurd hcount (by decide)
  · rintro rfl
    exact ⟨[], "playlist.m3u8".toList, by decide⟩

/-! ## The four patterns -/

theorem handle_master : handleStreamsPath .get (s ++ "/master.m3u8") = some (.hlsMaster s) := by
  rw [handleStreamsPath, stripSuffix?_append]
  rfl

theorem handle_manifest : handleStreamsPath .get (s ++ "/manifest.mpd") = some (.dashMpd s) := by
  rw [handleStreamsPath, stripSuffix?_none (by decide) (by decide), stripSuffix?_append]
  rfl

/-- What is routed to a media playlist. -/
theorem handle_variant_iff : handleStreamsPath .get path = some (.hlsMediaPlaylist s v) ↔
    path = variantPath s v ∧ ¬ LaterVariant v := by
  rw [← variantPath?_iff]
  constructor
  · intro h
    rw [handleStreamsPath] at h
    cases hmaster : stripSuffix? path "/master.m3u8" with
    | some id => simp [hmaster, onGet] at h
    | none =>
      cases hmanifest : stripSuffix? path "/manifest.mpd" with
      | some id => simp [hmaster, hmanifest, onGet] at h
      | none =>
        cases hvariant : variantPath? path with
        | none => simp [hmaster, hmanifest, hvariant] at h
        | some p =>
          obtain ⟨s', v'⟩ := p
          simpa [hmaster, hmanifest, hvariant, onGet] using h
  · intro h
    obtain ⟨hpath, -⟩ := variantPath?_iff.1 h
    rw [handleStreamsPath]
    have hmaster : stripSuffix? path "/master.m3u8" = none := by
      rw [hpath, variantPath]
      exact stripSuffix?_none (by decide) (by decide)
    have hmanifest : stripSuffix? path "/manifest.mpd" = none := by
      rw [hpath, variantPath]
      exact stripSuffix?_none (by decide) (by decide)
    rw [hmaster, hmanifest, h]
    rfl

/-- What is deleted. -/
theorem handle_delete_iff :
    handleStreamsPath .delete s = some (.deleteStream s) ↔ s ≠ "" ∧ '.' ∉ s.toList := by
  rw [handleStreamsPath]
  constructor
  · intro h
    cases hmaster : stripSuffix? s "/master.m3u8" with
    | some id => simp [hmaster, onGet] at h
    | none =>
      cases hmanifest : stripSuffix? s "/manifest.mpd" with
      | some id => simp [hmaster, hmanifest, onGet] at h
      | none =>
        cases hvariant : variantPath? s with
        | some p => simp [hmaster, hmanifest, hvariant, onGet] at h
        | none => simpa [hmaster, hmanifest, hvariant] using h
  · rintro ⟨hne, hdot⟩
    have hvariant : variantPath? s = none := by
      rw [Option.eq_none_iff_forall_ne_some]
      rintro ⟨s', v'⟩ h
      rw [(variantPath?_iff.1 h).1, variantPath, String.toList_append] at hdot
      exact hdot (List.mem_append_right _ (by decide))
    rw [stripSuffix?_dot hdot (by decide), stripSuffix?_dot hdot (by decide), hvariant]
    exact if_pos ⟨rfl, hne, hdot⟩

/-- **Every stream is routed to if and only if** its id has no dot and the variant is not called
`variant`. -/
theorem stream_routing_iff (s v : String) (hs : s ≠ "") (hv : '/' ∉ v.toList) :
    (handleStreamsPath .get (s ++ "/master.m3u8") = some (.hlsMaster s) ∧
      handleStreamsPath .get (s ++ "/manifest.mpd") = some (.dashMpd s) ∧
      handleStreamsPath .get (s ++ "/variant/" ++ v ++ "/playlist.m3u8")
        = some (.hlsMediaPlaylist s v) ∧
      handleStreamsPath .delete s = some (.deleteStream s)) ↔
    '.' ∉ s.toList ∧ v ≠ "variant" := by
  have hvariant : handleStreamsPath .get (s ++ "/variant/" ++ v ++ "/playlist.m3u8")
      = some (.hlsMediaPlaylist s v) ↔ v ≠ "variant" := by
    rw [handle_variant_iff, laterVariant_plain hv]
    exact and_iff_right rfl
  rw [hvariant, handle_delete_iff]
  constructor
  · rintro ⟨-, -, hword, -, hdot⟩
    exact ⟨hdot, hword⟩
  · rintro ⟨hdot, hword⟩
    exact ⟨handle_master, handle_manifest, hword, hs, hdot⟩

theorem stream_routing_iff_movie :
    (handleStreamsPath .get "movies/a/master.m3u8" = some (.hlsMaster "movies/a") ∧
      handleStreamsPath .get "movies/a/manifest.mpd" = some (.dashMpd "movies/a") ∧
      handleStreamsPath .get "movies/a/variant/720p/playlist.m3u8"
        = some (.hlsMediaPlaylist "movies/a" "720p") ∧
      handleStreamsPath .delete "movies/a" = some (.deleteStream "movies/a")) ↔
    '.' ∉ "movies/a".toList ∧ "720p" ≠ "variant" :=
  stream_routing_iff "movies/a" "720p" (by decide) (by decide)

/-- A stream with a dot is listed and played, but not deleted. -/
theorem dotted_stream_not_deleted : ¬ ∀ s v : String, s ≠ "" → '/' ∉ v.toList →
    handleStreamsPath .get (s ++ "/master.m3u8") = some (.hlsMaster s) ∧
    handleStreamsPath .get (s ++ "/manifest.mpd") = some (.dashMpd s) ∧
    handleStreamsPath .get (s ++ "/variant/" ++ v ++ "/playlist.m3u8")
      = some (.hlsMediaPlaylist s v) ∧
    handleStreamsPath .delete s = some (.deleteStream s) := by
  intro h
  obtain ⟨-, -, -, hdelete⟩ := h "a.b" "720p" (by decide) (by decide)
  exact (handle_delete_iff.1 hdelete).2 (by decide)

end KaidaDB
