import KaidaDB.Api.Proof.Routes

/-!
# Where the URLs of playlists lead

The path of a URL ends at the first `?` or `#` and is decoded, which never gains an ASCII character. So
a text written into a URL as it is comes back only if there is nothing to cut or to decode in it
(`decoded_iff`). Beyond that, a media key loses a slash at its beginning, and `rename` is another route
(`media_url_iff`); a variant's playlist is taken for that of another stream if there is a later
`/variant/` (`variant_url_iff`).
-/

namespace KaidaDB

open Percent (HasEscape)
open Utf8 (asciiCount)

variable {k s v : String}

/-! ## Texts in paths -/

/-- What is left of a text is the text, or has fewer ASCII characters. -/
theorem takeWhile_path (l : List Char) :
    ('?' ∉ l ∧ '#' ∉ l ∧ l.takeWhile (fun c => c ≠ '?' ∧ c ≠ '#') = l) ∨
      (('?' ∈ l ∨ '#' ∈ l) ∧
        asciiCount (l.takeWhile fun c => c ≠ '?' ∧ c ≠ '#') < asciiCount l) := by
  induction l with
  | nil => exact .inl (by simp)
  | cons c l ih =>
    by_cases hc : c ≠ '?' ∧ c ≠ '#'
    · rw [List.takeWhile_cons_of_pos (by simpa using hc)]
      rcases ih with ⟨h1, h2, h3⟩ | ⟨h1, h2⟩
      · exact .inl ⟨by simp [h1, hc.1.symm], by simp [h2, hc.2.symm], by rw [h3]⟩
      · refine .inr ⟨by simp [h1, hc.1.symm, hc.2.symm], ?_⟩
        rw [Utf8.asciiCount_cons, Utf8.asciiCount_cons]
        omega
    · rw [List.takeWhile_cons_of_neg (by simpa using hc)]
      refine .inr ⟨?_, ?_⟩
      · rcases not_and_or.1 hc with h | h
        · exact .inl (by simp [not_not.1 h])
        · exact .inr (by simp [not_not.1 h])
      · have hascii : c.toNat < 0x80 := by
          rcases not_and_or.1 hc with h | h
          · rw [not_not.1 h]
            decide
          · rw [not_not.1 h]
            decide
        rw [Utf8.asciiCount_cons, if_pos hascii]
        exact Nat.succ_pos _

/-- **What comes back of a text** has no more ASCII characters, and as many only if it is plain. -/
theorem asciiCount_decoded (k : String) :
    asciiCount (percentDecodeLossy (uriPath k)).toList ≤ asciiCount k.toList ∧
      (UrlPlain k → percentDecodeLossy (uriPath k) = k) ∧
      (¬ UrlPlain k → asciiCount (percentDecodeLossy (uriPath k)).toList < asciiCount k.toList) := by
  rw [percentDecodeLossy, uriPath, String.toList_ofList, String.toList_ofList]
  rcases takeWhile_path k.toList with ⟨hq, hf, heq⟩ | ⟨hmem, hlt⟩
  · rw [heq]
    obtain ⟨hle, hescape⟩ := Percent.asciiCount_lossy_decode k.toList
    refine ⟨hle, fun hplain => ?_, fun hnot => hescape (not_not.1 fun hno => hnot ⟨hq, hf, hno⟩)⟩
    rw [Percent.lossy_decode_iff.2 hplain.noEscape, String.ofList_toList]
  · have hle := (Percent.asciiCount_lossy_decode (k.toList.takeWhile fun c => c ≠ '?' ∧ c ≠ '#')).1
    refine ⟨by omega, fun hplain => ?_, fun _ => by omega⟩
    exact absurd hmem (not_or.2 ⟨hplain.noQuery, hplain.noFragment⟩)

theorem uriPath_plain (h : UrlPlain k) : uriPath k = k := by
  rcases takeWhile_path k.toList with ⟨-, -, heq⟩ | ⟨hmem, -⟩
  · rw [uriPath, heq, String.ofList_toList]
  · exact absurd hmem (not_or.2 ⟨h.noQuery, h.noFragment⟩)

theorem decoded_iff : percentDecodeLossy (uriPath k) = k ↔ UrlPlain k := by
  obtain ⟨-, hplain, hnot⟩ := asciiCount_decoded k
  refine ⟨fun heq => not_not.1 fun hno => ?_, hplain⟩
  have hlt := hnot hno
  rw [heq] at hlt
  exact Nat.lt_irrefl _ hlt

/-- The first slash is dropped, and nothing makes up for it. -/
theorem normalizeKey_eq_iff {d : String} (hle : asciiCount d.toList ≤ asciiCount k.toList) :
    normalizeKey d = k ↔ d = k ∧ startsWith k "/" = false := by
  have hslash : ∀ s : String, startsWith s "/" = true ↔ ∃ r, s.toList = '/' :: r := fun s => startsWith_iff
  by_cases hd : startsWith d "/" = true
  · obtain ⟨r, hr⟩ := (hslash d).1 hd
    have hnormal : normalizeKey d = String.ofList r := by
      unfold normalizeKey
      rw [hr]
      rfl
    rw [hnormal]
    constructor
    · rintro rfl
      rw [hr, Utf8.asciiCount_cons, if_pos (by decide), String.toList_ofList] at hle
      omega
    · rintro ⟨rfl, hnot⟩
      rw [hd] at hnot
      cases hnot
  · have hnormal : normalizeKey d = d := by
      rw [normalizeKey]
      split
      · rename_i r hr
        exact absurd ((hslash d).2 ⟨r, hr⟩) hd
      · rfl
    rw [hnormal]
    exact ⟨fun heq => ⟨heq, heq ▸ Bool.eq_false_iff.2 hd⟩, fun h => h.1⟩

/-! ## Media -/

theorem uriPath_append {p : String} (hq : '?' ∉ p.toList) (hf : '#' ∉ p.toList) (k : String) :
    uriPath (p ++ k) = p ++ uriPath k := by
  rw [uriPath, String.toList_append, List.takeWhile_append_of_pos, String.ofList_append,
    String.ofList_toList]
  · rfl
  · intro c hc
    have h1 := ne_of_mem_of_not_mem hc hq
    have h2 := ne_of_mem_of_not_mem hc hf
    simp [h1, h2]

theorem append_ne {p q : String} (h : ¬ p.toList <+: q.toList) (c : String) : p ++ c ≠ q := fun heq =>
  h ⟨c.toList, by rw [← heq, String.toList_append]⟩

theorem stripPrefix?_none {p q : String} (hpq : ¬ p.toList <+: q.toList) (hqp : ¬ q.toList <+: p.toList)
    (c : String) : stripPrefix? (p ++ c) q = none := by
  rw [Option.eq_none_iff_forall_ne_some]
  intro r hr
  have heq := congrArg String.toList (stripPrefix?_iff.1 hr)
  rw [String.toList_append, String.toList_append] at heq
  rcases List.prefix_or_prefix_of_prefix (List.prefix_append p.toList c.toList)
    (heq ▸ List.prefix_append q.toList r.toList) with h | h
  · exact hpq h
  · exact hqp h

/-- Where GET requests below `/v1/media/` lead. -/
theorem route_media (c : String) : route .get ("/v1/media/" ++ c)
    = if c = "rename" then .methodNotAllowed
      else .getMedia (normalizeKey (percentDecodeLossy c)) := by
  have hrename : "/v1/media/" ++ c = "/v1/media/rename" ↔ c = "rename" :=
    @String.append_right_inj "/v1/media/" c "rename"
  rw [route, if_neg (append_ne (by decide) c)]
  by_cases h : c = "rename"
  · rw [if_pos (hrename.2 h), if_neg (by decide), if_pos h]
  · rw [if_neg (hrename.not.2 h), if_neg (append_ne (by decide) c), if_neg (append_ne (by decide) c),
      combinedFallback, stripPrefix?_none (by decide) (by decide) c,
      stripPrefix?_none (by decide) (by decide) c, stripPrefix?_iff.2 rfl, if_neg h]

/-- Where GET requests below `/v1/streams/` lead. -/
theorem route_streams (c : String) : route .get ("/v1/streams/" ++ c)
    = (handleStreamsPath .get (percentDecodeLossy c)).getD .notFound := by
  rw [route, if_neg (append_ne (by decide) c), if_neg (append_ne (by decide) c),
    if_neg (append_ne (by decide) c), if_neg (append_ne (by decide) c), combinedFallback,
    stripPrefix?_none (by decide) (by decide) c, stripPrefix?_iff.2 rfl]

/-- **The URL of a key leads back to it** only if nothing in the key has a meaning in URLs, it does not
begin with a slash, and it is not `rename`. -/
theorem media_url_iff (k : String) : requested (mediaUrl "" k) = .getMedia k ↔
    UrlPlain k ∧ startsWith k "/" = false ∧ k ≠ "rename" := by
  have hurl : mediaUrl "" k = "/v1/media/" ++ k := by
    rw [mediaUrl, if_pos rfl]
    rfl
  rw [requested, hurl, uriPath_append (by decide) (by decide), route_media]
  obtain ⟨hle, hplain, -⟩ := asciiCount_decoded k
  constructor
  · intro h
    split_ifs at h with hrename
    obtain ⟨hback, hslash⟩ := (normalizeKey_eq_iff hle).1 (Endpoint.getMedia.inj h)
    have hk := decoded_iff.1 hback
    refine ⟨hk, hslash, fun heq => hrename ?_⟩
    rw [heq]
    decide
  · rintro ⟨hk, hslash, hne⟩
    have hcut := uriPath_plain hk
    rw [if_neg (hcut.symm ▸ hne), (normalizeKey_eq_iff hle).2 ⟨hplain hk, hslash⟩]

/-! ## Playlists -/

theorem noEscape_of_noPercent {l : List Char} (h : '%' ∉ l) : ¬ HasEscape l := by
  rintro ⟨x, y, hin, -⟩
  exact h (hin.subset List.mem_cons_self)

/-- A text with slashes is plain if its parts are. -/
theorem urlPlain_variantPath : UrlPlain (variantPath s v) ↔ UrlPlain s ∧ UrlPlain v := by
  have hpath : (variantPath s v).toList = s.toList ++ '/' :: ("variant".toList ++ '/' ::
      (v.toList ++ '/' :: "playlist.m3u8".toList)) := by
    simp [variantPath]
  have hword : ¬ HasEscape "variant".toList := noEscape_of_noPercent (by decide)
  have hend : ¬ HasEscape "playlist.m3u8".toList := noEscape_of_noPercent (by decide)
  have hescape : HasEscape (variantPath s v).toList ↔ HasEscape s.toList ∨ HasEscape v.toList := by
    rw [hpath, Percent.hasEscape_append, Percent.hasEscape_append, Percent.hasEscape_append]
    tauto
  constructor
  · rintro ⟨hq, hf, hno⟩
    rw [hescape, not_or] at hno
    rw [hpath] at hq hf
    simp only [List.mem_append, List.mem_cons, not_or] at hq hf
    exact ⟨⟨hq.1, hf.1, hno.1⟩, ⟨hq.2.2.2.2.1, hf.2.2.2.2.1, hno.2⟩⟩
  · rintro ⟨hs, hv⟩
    refine ⟨?_, ?_, ?_⟩
    · rw [hpath]
      simp [hs.noQuery, hv.noQuery]
    · rw [hpath]
      simp [hs.noFragment, hv.noFragment]
    · rw [hescape, not_or]
      exact ⟨hs.noEscape, hv.noEscape⟩

/-- **The URL of a variant leads to its playlist** only if nothing in the ids has a meaning in URLs, and
there is no later `/variant/`. -/
theorem variant_url_iff (s v : String) :
    requested (variantPlaylistUrl "" s v) = .hlsMediaPlaylist s v ↔
      UrlPlain s ∧ UrlPlain v ∧ ¬ LaterVariant v := by
  have hurl : variantPlaylistUrl "" s v = "/v1/streams/" ++ variantPath s v := by
    rw [variantPlaylistUrl, if_pos rfl]
    exact String.toList_inj.1 (by simp [variantPath, toString])
  have hgetD : ∀ o : Option Endpoint, o.getD .notFound = .hlsMediaPlaylist s v ↔
      o = some (.hlsMediaPlaylist s v) := by
    intro o
    cases o <;> simp
  rw [requested, hurl, uriPath_append (by decide) (by decide), route_streams, hgetD, handle_variant_iff,
    decoded_iff, urlPlain_variantPath, and_assoc]

/-- **Playlist URLs lead back if and only if** nothing in a key or id is cut off or decoded, a key is
neither `rename` nor begins with a slash, and no `/variant/` follows that before the variant id. -/
theorem playlist_urls_iff (k s v : String) :
    (requested (mediaUrl "" k) = .getMedia k ↔
      UrlPlain k ∧ startsWith k "/" = false ∧ k ≠ "rename") ∧
    (requested (variantPlaylistUrl "" s v) = .hlsMediaPlaylist s v ↔
      UrlPlain s ∧ UrlPlain v ∧ ¬ LaterVariant v) :=
  ⟨media_url_iff k, variant_url_iff s v⟩

/-- A key with a question mark, and a stream id with an escape. -/
theorem playlist_urls_astray :
    ¬ ((∀ k, validateKey k = .ok () → requested (mediaUrl "" k) = .getMedia k) ∧
      ∀ s v, requested (variantPlaylistUrl "" s v) = .hlsMediaPlaylist s v) := by
  rintro ⟨hmedia, -⟩
  exact ((media_url_iff "why?.mp4").1 (hmedia "why?.mp4" (by decide))).1.noQuery (by decide)

end KaidaDB
