import KaidaDB.Lib.Separated
import KaidaDB.Storage.Engine
import KaidaDB.Tui.BrowseTree
import KaidaDB.Tui.Proof.Browse

/-!
# The tree of keys is complete but for slashes

The prefixes one gets to are those up to a slash in a key (`Inside`, `exists_descent`), and a key is a
file at the one up to its last slash. So a key that ends with a slash is shown nowhere, though it is
counted, and all others are. Going up drops all slashes at the end of the prefix, which leads too far
from an entry without a name below a prefix: the tree is right if and only if no key ends with a slash
or has two in a row (`browse_tree_iff`).
-/

namespace KaidaDB

open Std (ExtTreeMap)
open Separated (Closed)

variable {lower : String → String}

namespace BrowseState

variable {b c d : BrowseState} {kind : BrowseAct → Prop}

/-! ## Reaching views -/

theorem Reaches.refl (b : BrowseState) : b.Reaches lower kind b := ⟨[], by simp, rfl⟩

theorem Reaches.step (h : b.Reaches lower kind c) {a : BrowseAct} (ha : kind a) :
    b.Reaches lower kind (c.act lower a) := by
  obtain ⟨acts, hacts, rfl⟩ := h
  refine ⟨acts ++ [a], fun x hx => ?_, by rw [List.foldl_append]; rfl⟩
  rcases List.mem_append.1 hx with hx | hx
  · exact hacts x hx
  · rwa [List.mem_singleton.1 hx]

theorem Reaches.trans (h1 : b.Reaches lower kind c) (h2 : c.Reaches lower kind d) :
    b.Reaches lower kind d := by
  obtain ⟨acts, hacts, rfl⟩ := h1
  obtain ⟨more, hmore, rfl⟩ := h2
  exact ⟨acts ++ more, List.forall_mem_append.2 ⟨hacts, hmore⟩, List.foldl_append⟩

theorem Reaches.mono {kind' : BrowseAct → Prop} (h : b.Reaches lower kind c)
    (hkind : ∀ a, kind a → kind' a) : b.Reaches lower kind' c := by
  obtain ⟨acts, hacts, hc⟩ := h
  exact ⟨acts, fun a ha => hkind a (hacts a ha), hc⟩

/-- What holds of a view and is kept holds of the views that are reached. -/
theorem Reaches.invariant {P : BrowseState → Prop} (h : b.Reaches lower kind c) (hb : P b)
    (hstep : ∀ b a, kind a → P b → P (b.act lower a)) : P c := by
  obtain ⟨acts, hacts, rfl⟩ := h
  induction acts generalizing b with
  | nil => exact hb
  | cons a acts ih =>
    obtain ⟨ha, hacts⟩ := List.forall_mem_cons.1 hacts
    exact ih (hstep b a ha hb) hacts

/-! ## Where one gets to -/

/-- A prefix up to a slash in a key, or the empty one. -/
def IsDirectory (items : List MediaItem) (p : String) : Prop :=
  p = "" ∨ Closed '/' p.toList ∧ ∃ item ∈ items, startsWith item.key p = true

/-- A view of some items at a directory. -/
structure Inside (lower : String → String) (items : List MediaItem) (b : BrowseState) : Prop where
  fresh : b.Fresh lower
  items_eq : b.items = items
  searchQuery : b.searchQuery = ""
  showHiddenFiles : b.showHiddenFiles = true
  directory : IsDirectory items b.browsePrefix

variable {items : List MediaItem}

theorem IsDirectory.closed {p : String} (h : IsDirectory items p) : Closed '/' p.toList := by
  rcases h with rfl | ⟨h, -⟩
  · exact Separated.closed_nil
  · exact h

theorem AtRoot.inside (h : b.AtRoot lower) : b.Inside lower b.items where
  fresh := h.view ▸ applyFilter_fresh b
  items_eq := rfl
  searchQuery := h.searchQuery
  showHiddenFiles := h.showHiddenFiles
  directory := .inl h.browsePrefix

theorem Inside.entries_eq (h : b.Inside lower items) :
    b.browseEntries = entriesOf true b.browsePrefix lower items := by
  have hall : items.filter (MediaItem.matchesQuery lower "") = items :=
    List.filter_eq_self.2 fun item _ => by simp [MediaItem.matchesQuery]
  rw [h.fresh.entries, h.fresh.visible_eq, h.showHiddenFiles, h.searchQuery, h.items_eq, hall]

theorem shown_all (name : String) : Shown true name := .inl rfl

/-- The file entries of a view. -/
theorem Inside.showsFile_iff (h : b.Inside lower items) {key : String} : b.ShowsFile key ↔
    (∃ item ∈ items, item.key = key) ∧ ∃ name, FileOf true b.browsePrefix key name := by
  rw [ShowsFile, h.entries_eq]
  constructor
  · rintro ⟨e, he, hfile, hkey⟩
    rcases mem_entriesOf.1 he with ⟨d, -, rfl⟩ | ⟨item, hitem, name, hname, rfl⟩
    · cases hfile
    · cases hkey
      exact ⟨⟨item, hitem, rfl⟩, name, hname⟩
  · rintro ⟨⟨item, hitem, rfl⟩, name, hname⟩
    exact ⟨_, mem_entriesOf.2 (.inr ⟨item, hitem, name, hname, rfl⟩), rfl, rfl⟩

/-! ## Going in -/

theorem isDirectory_into {item : MediaItem} {p name : String} (hitem : item ∈ items)
    (h : DirOf true p item.key name) : IsDirectory items (p ++ name ++ "/") :=
  .inr ⟨.inr ⟨(p ++ name).toList, String.toList_append⟩, item, hitem, h.below⟩

/-- The prefix that going up leads to is that of a directory. -/
theorem parentPrefix_spec (p : String) :
    Closed '/' (parentPrefix p).toList ∧ (parentPrefix p).toList <+: (trimEndSlashes p).toList := by
  rw [parentPrefix]
  cases hpos : Replace.rfind? ['/'] (trimEndSlashes p).toList with
  | none => exact ⟨Separated.closed_nil, List.nil_prefix⟩
  | some pos =>
    obtain ⟨x, y, heq, hlen, -⟩ := Replace.rfind?_eq_some (by simp) hpos
    dsimp only
    rw [String.toList_ofList]
    refine ⟨.inr ⟨x, ?_⟩, List.take_prefix _ _⟩
    rw [heq, ← List.append_assoc, List.take_left' (by simp [hlen])]

theorem trimEndSlashes_start (p : String) : (trimEndSlashes p).toList <+: p.toList := by
  rw [trimEndSlashes, String.toList_ofList, ← List.reverse_suffix, List.reverse_reverse]
  exact List.dropWhile_suffix _

theorem IsDirectory.parent {p : String} (h : IsDirectory items p) :
    IsDirectory items (parentPrefix p) := by
  obtain ⟨hclosed, hprefix⟩ := parentPrefix_spec p
  have hup : startsWith p (parentPrefix p) = true := by
    obtain ⟨r, hr⟩ := hprefix.trans (trimEndSlashes_start p)
    exact startsWith_iff.2 ⟨r, hr.symm⟩
  rcases h with rfl | ⟨-, item, hitem, hkey⟩
  · exact .inl rfl
  · exact .inr ⟨hclosed, item, hitem, startsWith_trans hkey hup⟩

/-- The directory entries of a view. -/
theorem Inside.dirOf (h : b.Inside lower items) {e : BrowseEntry} (he : e ∈ b.browseEntries)
    (hdir : e.isDir = true) : (∃ item ∈ items, DirOf true b.browsePrefix item.key e.name) ∧
      e = dirEntry b.browsePrefix items e.name := by
  rw [h.entries_eq] at he
  exact dirEntry_of_mem he hdir

theorem rebuild_inside (hfiltered : b.filteredItems = filterItems lower b.searchQuery b.items)
    (hitems : b.items = items) (hquery : b.searchQuery = "") (hshown : b.showHiddenFiles = true)
    (hdirectory : IsDirectory items b.browsePrefix) :
    (b.rebuildBrowseEntries lower).Inside lower items :=
  ⟨rebuild_fresh hfiltered, hitems, hquery, hshown, hdirectory⟩

/-- **One stays inside the tree.** -/
theorem Inside.act (h : b.Inside lower items) {a : BrowseAct} (ha : a.Navigates) :
    (b.act lower a).Inside lower items := by
  have hfresh := h.fresh.act a
  cases a with
  | next =>
    simp only [BrowseState.act, next] at hfresh ⊢
    split_ifs at hfresh ⊢
    · exact h
    · exact ⟨hfresh, h.items_eq, h.searchQuery, h.showHiddenFiles, h.directory⟩
  | previous => exact ⟨hfresh, h.items_eq, h.searchQuery, h.showHiddenFiles, h.directory⟩
  | first => exact ⟨hfresh, h.items_eq, h.searchQuery, h.showHiddenFiles, h.directory⟩
  | last =>
    simp only [BrowseState.act, last] at hfresh ⊢
    split_ifs at hfresh ⊢
    · exact h
    · exact ⟨hfresh, h.items_eq, h.searchQuery, h.showHiddenFiles, h.directory⟩
  | browseInto =>
    simp only [BrowseState.act, browseInto]
    cases hentry : b.selectedBrowseEntry with
    | none => exact h
    | some e =>
      dsimp only
      split_ifs with hdir
      · obtain ⟨⟨item, hitem, hname⟩, -⟩ := h.dirOf (List.mem_of_getElem? hentry) hdir
        exact rebuild_inside h.fresh.filtered h.items_eq h.searchQuery h.showHiddenFiles
          (isDirectory_into hitem hname)
      · exact h
  | browseUp =>
    simp only [BrowseState.act, browseUp]
    split_ifs
    · exact h
    · refine rebuild_inside h.fresh.filtered h.items_eq h.searchQuery h.showHiddenFiles ?_
      dsimp only
      exact h.directory.parent
  | toggleHiddenFiles => exact ha.elim
  | refresh items => exact ha.elim
  | search query => exact ha.elim

theorem navigates_of_descends {a : BrowseAct} (h : a.Descends) : a.Navigates := by
  cases a <;> first | exact h | exact h.elim

theorem Inside.navigate (h : b.Inside lower items) (hc : b.Reaches lower BrowseAct.Navigates c) :
    c.Inside lower items :=
  hc.invariant h fun _ _ ha hb => hb.act ha

theorem Inside.descend (h : b.Inside lower items) (hc : b.Reaches lower BrowseAct.Descends c) :
    c.Inside lower items :=
  h.navigate (hc.mono fun _ => navigates_of_descends)

/-- The cursor can be put on any entry. -/
theorem exists_selected {i : Nat} (hi : i < b.browseEntries.length) :
    b.Reaches lower BrowseAct.Descends { b with selected := i } := by
  induction i with
  | zero => exact (Reaches.refl b).step (a := .first) trivial
  | succ i ih =>
    have hnext := (ih (by omega)).step (a := .next) trivial
    have hne : b.browseEntries ≠ [] := List.ne_nil_of_length_pos (by omega)
    have hmin : min (i + 1) (b.browseEntries.length - 1) = i + 1 := by omega
    rw [BrowseState.act, next, if_neg hne, hmin] at hnext
    exact hnext

theorem browsePrefix_browseInto {e : BrowseEntry} (he : b.selectedBrowseEntry = some e)
    (hdir : e.isDir = true) : (b.browseInto lower).browsePrefix = b.browsePrefix ++ e.name ++ "/" := by
  rw [browseInto, he]
  dsimp only
  rw [if_pos hdir]
  rfl

theorem browseInto_ne {e : BrowseEntry} (he : b.selectedBrowseEntry = some e)
    (hdir : e.isDir = true) : (b.browseInto lower).browsePrefix ≠ "" := by
  rw [browsePrefix_browseInto he hdir]
  intro hempty
  have := congrArg String.toList hempty
  simp at this

/-- A directory entry can be gone into. -/
theorem exists_into {e : BrowseEntry} (he : e ∈ b.browseEntries) (hdir : e.isDir = true) :
    ∃ c, b.Reaches lower BrowseAct.Descends c ∧ c.browsePrefix = b.browsePrefix ++ e.name ++ "/" := by
  obtain ⟨i, hi, hget⟩ := List.mem_iff_getElem.1 he
  refine ⟨_, (exists_selected hi).step (a := .browseInto) trivial, browsePrefix_browseInto ?_ hdir⟩
  rw [selectedBrowseEntry, List.getElem?_eq_getElem hi, hget]

theorem startsWith_toList {s p : String} : startsWith s p = true ↔ p.toList <+: s.toList := by
  rw [startsWith_iff]
  exact ⟨fun ⟨r, hr⟩ => ⟨r, hr.symm⟩, fun ⟨r, hr⟩ => ⟨r, hr.symm⟩⟩

/-- **Every directory below a view is reached**, by its parent. -/
theorem exists_descent (hb : b.Inside lower items) (n : Nat) : ∀ {p : String}, p.toList.length = n →
    IsDirectory items p → startsWith p b.browsePrefix = true →
    ∃ c, b.Reaches lower BrowseAct.Descends c ∧ c.browsePrefix = p := by
  induction n using Nat.strongRecOn with
  | ind n ih =>
    intro p hlen hp hbelow
    by_cases heq : p = b.browsePrefix
    · exact ⟨b, .refl b, heq.symm⟩
    rcases hp with rfl | ⟨hclosed, item, hitem, hkey⟩
    · have hnil := List.prefix_nil.1 (startsWith_toList.1 hbelow)
      exact absurd (String.toList_eq_nil_iff.1 hnil).symm heq
    obtain ⟨q, name, hq, hqclosed, hname⟩ := hclosed.exists_parent fun hnil => by
      rw [startsWith_toList, hnil, List.prefix_nil] at hbelow
      exact heq (String.toList_inj.1 (hnil.trans hbelow.symm))
    obtain ⟨q, rfl⟩ : ∃ s : String, s.toList = q := ⟨_, String.toList_ofList⟩
    obtain ⟨name, rfl⟩ : ∃ s : String, s.toList = name := ⟨_, String.toList_ofList⟩
    have hsplit : p = q ++ name ++ "/" := String.toList_inj.1 (by simp [hq])
    -- the view is not behind the parent
    have hparent : startsWith q b.browsePrefix = true := by
      rw [startsWith_toList]
      rw [startsWith_toList, hq, ← List.append_assoc] at hbelow
      rcases List.prefix_concat_iff.1 hbelow with hwhole | hpart
      · exact absurd (String.toList_inj.1 (by rw [hq, ← List.append_assoc, hwhole])) heq
      · exact hb.directory.closed.prefix_of hpart hname
    have hqdir : IsDirectory items q := .inr ⟨hqclosed, item, hitem, startsWith_trans hkey
      (hsplit ▸ startsWith_trans (startsWith_append _ _) (startsWith_append _ _))⟩
    have hshorter : q.toList.length < n := by
      rw [← hlen, hq, List.length_append, List.length_append, List.length_singleton]
      omega
    obtain ⟨c, hc, hcp⟩ := ih _ hshorter rfl hqdir hparent
    have hdir : dirEntry c.browsePrefix items name ∈ c.browseEntries := by
      rw [(hb.descend hc).entries_eq]
      refine mem_entriesOf.2 (.inl ⟨name, ⟨item, hitem, hname, ?_, shown_all name⟩, rfl⟩)
      rw [hcp, ← hsplit]
      exact hkey
    obtain ⟨d, hd, hdp⟩ := @exists_into lower _ _ hdir rfl
    refine ⟨d, hc.trans hd, ?_⟩
    rw [hdp, hcp, hsplit]
    rfl

/-! ## Files -/

theorem endsWith_slash {key : String} : endsWith key "/" = true ↔ ∃ q, key.toList = q ++ ['/'] :=
  endsWith_iff

/-- Every key is that of a file at one directory, if it does not end with a slash. -/
theorem exists_file {item : MediaItem} (hitem : item ∈ items) (hend : endsWith item.key "/" = false)
    (hne : item.key ≠ "") : ∃ p name, IsDirectory items p ∧ FileOf true p item.key name := by
  obtain ⟨p, name, hkey, hp, hname⟩ := Separated.exists_split '/' item.key.toList
  obtain ⟨p, rfl⟩ : ∃ s : String, s.toList = p := ⟨_, String.toList_ofList⟩
  obtain ⟨name, rfl⟩ : ∃ s : String, s.toList = name := ⟨_, String.toList_ofList⟩
  refine ⟨p, name, .inr ⟨hp, item, hitem, startsWith_iff.2 ⟨_, hkey⟩⟩,
    String.toList_inj.1 (by simp [hkey]), ?_, hname, shown_all name⟩
  rintro rfl
  rw [String.toList_empty, List.append_nil] at hkey
  rcases hp with hnil | hslash
  · exact hne (String.toList_eq_nil_iff.1 (hkey.trans hnil))
  · rw [← hkey] at hslash
    rw [endsWith_slash.2 hslash] at hend
    cases hend

theorem fileOf_not_slash {p key name : String} (h : FileOf true p key name) :
    endsWith key "/" = false := by
  rw [Bool.eq_false_iff]
  intro hend
  obtain ⟨q, hq⟩ := endsWith_slash.1 hend
  have hkey : key.toList = p.toList ++ name.toList := by rw [h.key_eq, String.toList_append]
  have hlast : name.toList.getLast? = some '/' := by
    have hne : name.toList ≠ [] := fun hnil => h.ne (String.toList_eq_nil_iff.1 hnil)
    have := congrArg List.getLast? (hq.symm.trans hkey)
    rw [List.getLast?_concat, List.getLast?_append_of_ne_nil _ hne] at this
    exact this.symm
  exact h.plain (List.mem_of_getLast? hlast)

theorem fileOf_directory_unique {p q key name name' : String} (hp : Closed '/' p.toList)
    (hq : Closed '/' q.toList) (h : FileOf true p key name) (h' : FileOf true q key name') : p = q := by
  refine String.toList_inj.1 (Separated.split_unique hp hq h.plain h'.plain ?_)
  rw [← String.toList_append, ← String.toList_append, ← h.key_eq, ← h'.key_eq]

/-- **Keys that do not end with a slash** are shown each once. -/
theorem Inside.shows_once (hb : b.Inside lower b.items) (hroot : b.browsePrefix = "") {item : MediaItem}
    (hitem : item ∈ b.items) (hend : endsWith item.key "/" = false) (hne : item.key ≠ "") :
    ∃! p, ∃ c, b.Reaches lower BrowseAct.Descends c ∧ c.browsePrefix = p ∧ c.ShowsFile item.key := by
  obtain ⟨p, name, hp, hname⟩ := exists_file hitem hend hne
  obtain ⟨c, hc, rfl⟩ := exists_descent hb _ rfl hp (by rw [hroot]; exact startsWith_empty p)
  refine ⟨c.browsePrefix, ⟨c, hc, rfl, ?_⟩, ?_⟩
  · exact (hb.descend hc).showsFile_iff.2 ⟨⟨item, hitem, rfl⟩, name, hname⟩
  · rintro q ⟨d, hd, rfl, hshows⟩
    obtain ⟨-, name', hname'⟩ := (hb.descend hd).showsFile_iff.1 hshows
    exact fileOf_directory_unique (hb.descend hd).directory.closed (hb.descend hc).directory.closed
      hname' hname

/-- The number of keys with a property. -/
theorem ncard_keys {items : List MediaItem} (hnodup : (items.map MediaItem.key).Nodup)
    (f : String → Bool) :
    Set.ncard {key | (∃ item ∈ items, item.key = key) ∧ f key = true}
      = (items.filter fun item => f item.key).length := by
  have hset : {key | (∃ item ∈ items, item.key = key) ∧ f key = true}
      = (((items.map MediaItem.key).filter f).toFinset : Set String) := by
    ext key
    simp
  rw [hset, Set.ncard_coe_finset, List.toFinset_card_of_nodup (hnodup.filter _), List.filter_map,
    List.length_map]
  rfl

/-- The files below a directory entry are those of the keys that its count is of. -/
theorem Inside.files_below (hc : c.Inside lower items)
    (hvalid : ∀ item ∈ items, item.key ≠ "" ∧ endsWith item.key "/" = false) (e : BrowseEntry)
    (key : String) :
    (∃ d, c.Reaches lower BrowseAct.Descends d ∧
        startsWith d.browsePrefix (c.browsePrefix ++ e.name ++ "/") = true ∧ d.ShowsFile key) ↔
      (∃ item ∈ items, item.key = key) ∧
        startsWith key (c.browsePrefix ++ e.name ++ "/") = true := by
  constructor
  · rintro ⟨d, hd, hbelow, hshows⟩
    obtain ⟨hitem, name, hname⟩ := (hc.descend hd).showsFile_iff.1 hshows
    exact ⟨hitem, startsWith_trans (hname.key_eq ▸ startsWith_append _ _) hbelow⟩
  · rintro ⟨⟨item, hitem, rfl⟩, hbelow⟩
    obtain ⟨p, name, hp, hname⟩ := exists_file hitem (hvalid item hitem).2 (hvalid item hitem).1
    -- the entry's prefix ends with a slash, so it does not reach into the name
    have hunder : startsWith p (c.browsePrefix ++ e.name ++ "/") = true := by
      have hkey : item.key.toList = p.toList ++ name.toList := by rw [hname.key_eq, String.toList_append]
      rw [startsWith_toList] at hbelow ⊢
      rw [hkey] at hbelow
      exact Closed.prefix_of (.inr ⟨_, String.toList_append⟩) hbelow hname.plain
    obtain ⟨d, hd, rfl⟩ := exists_descent hc _ rfl hp
      (startsWith_trans hunder (startsWith_trans (startsWith_append _ _) (startsWith_append _ _)))
    exact ⟨d, hd, hunder, (hc.descend hd).showsFile_iff.2 ⟨⟨item, hitem, rfl⟩, name, hname⟩⟩

/-! ## Going up -/

theorem trimEndSlashes_name {p name : String} (hne : name ≠ "") (hname : '/' ∉ name.toList) :
    trimEndSlashes (p ++ name ++ "/") = p ++ name := by
  have hreverse : (p ++ name ++ "/").toList.reverse
      = '/' :: (name.toList.reverse ++ p.toList.reverse) := by simp
  have hdrop : (name.toList.reverse ++ p.toList.reverse).dropWhile (· = '/')
      = name.toList.reverse ++ p.toList.reverse := by
    cases hchars : name.toList.reverse with
    | nil => exact absurd (String.toList_eq_nil_iff.1 (List.reverse_eq_nil_iff.1 hchars)) hne
    | cons x xs =>
      have hx : x ≠ '/' := fun h => hname (List.mem_reverse.1 (by simp [hchars, h]))
      rw [List.cons_append, List.dropWhile_cons_of_neg (by simpa using hx)]
  rw [trimEndSlashes, hreverse, List.dropWhile_cons_of_pos (by decide), hdrop]
  exact String.toList_inj.1 (by simp)

theorem rfind?_none {s : List Char} (h : '/' ∉ s) : Replace.rfind? ['/'] s = none :=
  (Replace.rfind?_eq_none (by simp)).2 fun hin => h (hin.subset (List.mem_singleton.2 rfl))

/-- Up from an entry with a name, or from one at the top. -/
theorem parentPrefix_into {p name : String} (hp : Closed '/' p.toList) (hname : '/' ∉ name.toList)
    (hne : name ≠ "" ∨ p = "") : parentPrefix (p ++ name ++ "/") = p := by
  by_cases hempty : name = ""
  · obtain rfl := hne.resolve_left (not_not.2 hempty)
    subst hempty
    decide
  rw [parentPrefix, trimEndSlashes_name hempty hname, String.toList_append]
  rcases hp with hnil | ⟨q, hq⟩
  · rw [hnil, List.nil_append, rfind?_none hname]
    exact (String.toList_eq_nil_iff.1 hnil).symm
  · have hlast : ¬ ['/'] <:+: [] ++ name.toList := fun hin =>
      hname (hin.subset (List.mem_singleton.2 rfl))
    rw [hq, List.append_assoc, Replace.rfind?_append hlast]
    dsimp only
    rw [← List.append_assoc, List.take_left' (by simp), ← hq, String.ofList_toList]

/-- Up from an entry without a name below a prefix leads too far. -/
theorem parentPrefix_nameless {p : String} (hp : Closed '/' p.toList) (hne : p ≠ "") :
    parentPrefix (p ++ "" ++ "/") ≠ p := by
  intro h
  have hle := (parentPrefix_spec (p ++ "" ++ "/")).2.length_le
  rcases hp with hnil | ⟨q, hq⟩
  · exact hne (String.toList_eq_nil_iff.1 hnil)
  have hreverse : (p ++ "" ++ "/").toList.reverse = '/' :: '/' :: q.reverse := by simp [hq]
  rw [h, trimEndSlashes, hreverse, List.dropWhile_cons_of_pos (by decide),
    List.dropWhile_cons_of_pos (by decide), String.toList_ofList, List.length_reverse, hq,
    List.length_append, List.length_singleton] at hle
  have := (List.dropWhile_suffix (l := q.reverse) (· = '/')).length_le
  rw [List.length_reverse] at this
  omega

theorem browsePrefix_browseUp (hne : b.browsePrefix ≠ "") :
    (b.browseUp lower).browsePrefix = parentPrefix b.browsePrefix := by
  rw [browseUp, if_neg hne]
  simp only [rebuild_browsePrefix]

/-- Up from a view whose cursor at the parent is remembered. -/
theorem browseUp_remembered {entries : List BrowseEntry} {n : Nat} {e : BrowseEntry}
    (hne : b.browsePrefix ≠ "") (hparent : parentPrefix b.browsePrefix ≠ b.browsePrefix)
    (hpos : b.browsePos[parentPrefix b.browsePrefix]? = some n)
    (hentries : entriesOf b.showHiddenFiles (parentPrefix b.browsePrefix) lower b.visible = entries)
    (hn : entries[n]? = some e) : (b.browseUp lower).selectedBrowseEntry = some e := by
  have hselected : (b.browsePos.insert b.browsePrefix b.selected).getD (parentPrefix b.browsePrefix) 0
      = n := by
    rw [ExtTreeMap.getD_eq_getD_getElem?, FinMap.get_insert, if_neg hparent.symm, hpos,
      Option.getD_some]
  rw [browseUp, if_neg hne]
  dsimp only
  rw [hselected]
  refine rebuild_selected ?_
  rw [← hentries] at hn
  dsimp only [visible] at hn ⊢
  exact hn

/-- Where going in and up again leads. -/
theorem Inside.back (h : c.Inside lower items) {e : BrowseEntry}
    (he : c.selectedBrowseEntry = some e) (hdir : e.isDir = true)
    (hup : parentPrefix (c.browsePrefix ++ e.name ++ "/") = c.browsePrefix) :
    ((c.browseInto lower).browseUp lower).browsePrefix = c.browsePrefix ∧
      ((c.browseInto lower).browseUp lower).selectedBrowseEntry = some e := by
  have hlonger : c.browsePrefix ≠ c.browsePrefix ++ e.name ++ "/" := fun heq => by
    have := congrArg (fun s => s.toList.length) heq
    simp at this
  have hinto : (c.browseInto lower) = BrowseState.rebuildBrowseEntries lower
      { c with
        browsePos := c.browsePos.insert c.browsePrefix c.selected
        browsePrefix := c.browsePrefix ++ e.name ++ "/"
        selected := (c.browsePos.insert c.browsePrefix c.selected).getD
          (c.browsePrefix ++ e.name ++ "/") 0 } := by
    rw [browseInto, he]
    dsimp only
    rw [if_pos hdir]
  have hup' : parentPrefix (c.browseInto lower).browsePrefix = c.browsePrefix := by
    rw [browsePrefix_browseInto he hdir, hup]
  have hne : (c.browseInto lower).browsePrefix ≠ "" := browseInto_ne he hdir
  refine ⟨by rw [browsePrefix_browseUp hne, hup'],
    browseUp_remembered hne ?_ ?_ ?_ (he : c.browseEntries[c.selected]? = some e)⟩
  · rw [hup', browsePrefix_browseInto he hdir]
    exact hlonger
  · rw [hup', hinto, rebuild_browsePos, FinMap.get_insert, if_pos rfl]
  · rw [hup', hinto, h.fresh.entries]
    rfl

end BrowseState

theorem ne_empty_of_valid {key : String} (h : validateKey key = .ok ()) : key ≠ "" := by
  rintro rfl
  cases h

/-- The entry without a name, of a key with two slashes in a row. -/
theorem exists_nameless {items : List MediaItem} {item : MediaItem} (hitem : item ∈ items)
    (h : containsStr item.key "//" = true) : ∃ p, p ≠ "" ∧ BrowseState.IsDirectory items p ∧
      DirOf true p item.key "" := by
  obtain ⟨x, y, hxy⟩ := of_decide_eq_true h
  have hkey : item.key.toList = (String.ofList x ++ "/").toList ++ ('/' :: y) := by simp [← hxy]
  have hne : String.ofList x ++ "/" ≠ "" := fun hempty => by
    have := congrArg String.toList hempty
    simp at this
  exact ⟨_, hne, .inr ⟨.inr ⟨_, String.toList_append⟩, item, hitem, startsWith_iff.2 ⟨_, hkey⟩⟩,
    by simp, startsWith_iff.2 ⟨y, by simp [hkey]⟩, BrowseState.shown_all _⟩

theorem containsStr_nameless {p key : String} (hp : Closed '/' p.toList) (hne : p ≠ "")
    (h : DirOf true p key "") : containsStr key "//" = true := by
  obtain ⟨r, hr⟩ := h.toList_eq
  rcases hp with hnil | ⟨q, hq⟩
  · exact absurd (String.toList_eq_nil_iff.1 hnil) hne
  · exact decide_eq_true ⟨q, r, by simp [hr, hq]⟩

section
variable {b : BrowseState} (hroot : b.AtRoot lower)
include hroot

/-- What a right tree needs. -/
theorem plain_of_tree (hshows : b.ShowsEachOnce lower) (hup : b.UpUndoesInto lower) :
    ∀ item ∈ b.items, endsWith item.key "/" = false ∧ containsStr item.key "//" = false := by
  have hinside := hroot.inside
  intro item hitem
  constructor
  · obtain ⟨p, ⟨c, hc, rfl, hfile⟩, -⟩ := hshows item hitem
    obtain ⟨-, name, hname⟩ := (hinside.descend hc).showsFile_iff.1 hfile
    exact BrowseState.fileOf_not_slash hname
  · rw [Bool.eq_false_iff]
    intro hdouble
    obtain ⟨p, hne, hp, hname⟩ := exists_nameless hitem hdouble
    obtain ⟨c, hc, rfl⟩ := BrowseState.exists_descent hinside _ rfl hp
      (by rw [hroot.browsePrefix]; exact startsWith_empty p)
    have hentry : dirEntry c.browsePrefix b.items "" ∈ c.browseEntries := by
      rw [(hinside.descend hc).entries_eq]
      exact mem_entriesOf.2 (.inl ⟨"", ⟨item, hitem, hname⟩, rfl⟩)
    obtain ⟨i, hi, hget⟩ := List.mem_iff_getElem.1 hentry
    have hselect := hc.trans (BrowseState.exists_selected hi)
    have hselected : ({ c with selected := i } : BrowseState).selectedBrowseEntry
        = some (dirEntry c.browsePrefix b.items "") := by
      rw [BrowseState.selectedBrowseEntry, List.getElem?_eq_getElem hi, hget]
    obtain ⟨hback, -⟩ := hup _ (hselect.mono fun _ => BrowseState.navigates_of_descends) _
      hselected rfl
    rw [BrowseState.browsePrefix_browseUp (BrowseState.browseInto_ne hselected rfl),
      BrowseState.browsePrefix_browseInto hselected rfl] at hback
    exact BrowseState.parentPrefix_nameless (hinside.descend hc).directory.closed hne hback

theorem tree_of_plain (hvalid : ∀ item ∈ b.items, validateKey item.key = .ok ())
    (hnodup : (b.items.map MediaItem.key).Nodup)
    (hkeys : ∀ item ∈ b.items, endsWith item.key "/" = false ∧ containsStr item.key "//" = false) :
    b.ShowsEachOnce lower ∧ b.CountsFiles lower ∧ b.UpUndoesInto lower := by
  have hinside := hroot.inside
  have hfiles : ∀ item ∈ b.items, item.key ≠ "" ∧ endsWith item.key "/" = false := fun item hitem =>
    ⟨ne_empty_of_valid (hvalid item hitem), (hkeys item hitem).1⟩
  refine ⟨fun item hitem => ?_, fun c hc e he hdir => ?_, fun c hc e he hdir => ?_⟩
  · exact hinside.shows_once hroot.browsePrefix hitem (hfiles item hitem).2 (hfiles item hitem).1
  · have hcin := hinside.descend hc
    rw [Set.ext fun key => hcin.files_below hfiles e key, BrowseState.ncard_keys hnodup,
      (hcin.dirOf he hdir).2]
    rfl
  · have hcin := hinside.navigate hc
    obtain ⟨⟨item, hitem, hname⟩, -⟩ := hcin.dirOf (List.mem_of_getElem? he) hdir
    refine hcin.back he hdir (BrowseState.parentPrefix_into hcin.directory.closed hname.plain ?_)
    by_contra hnot
    obtain ⟨hempty, hne⟩ := not_or.1 hnot
    rw [not_not.1 hempty] at hname
    have hdouble := (hkeys item hitem).2
    rw [containsStr_nameless hcin.directory.closed hne hname] at hdouble
    cases hdouble

end

/-- **The tree is right if and only if** no key ends with a slash or has two of them in a row. -/
theorem browse_tree_iff (lower : String → String) {b : BrowseState} (hroot : b.AtRoot lower)
    (hvalid : ∀ item ∈ b.items, validateKey item.key = .ok ())
    (hnodup : (b.items.map MediaItem.key).Nodup) :
    (b.ShowsEachOnce lower ∧ b.CountsFiles lower ∧ b.UpUndoesInto lower) ↔
      ∀ item ∈ b.items, endsWith item.key "/" = false ∧ containsStr item.key "//" = false :=
  ⟨fun h => plain_of_tree hroot h.1 h.2.2, tree_of_plain hroot hvalid hnodup⟩

/-- The top of a store with some items. -/
def topOf (items : List MediaItem) : BrowseState :=
  { BrowseState.new with items, showHiddenFiles := true }.applyFilter String.toLower

theorem topOf_atRoot (items : List MediaItem) : (topOf items).AtRoot String.toLower :=
  ⟨(BrowseState.applyFilter_fresh _).applyFilter_eq, rfl, rfl, rfl⟩

theorem browse_tree_iff_top : let b := topOf [⟨"d/e", "", 1⟩, ⟨"d/f", "", 1⟩]
    (b.ShowsEachOnce String.toLower ∧ b.CountsFiles String.toLower ∧ b.UpUndoesInto String.toLower) ↔
      ∀ item ∈ b.items, endsWith item.key "/" = false ∧ containsStr item.key "//" = false :=
  browse_tree_iff String.toLower (topOf_atRoot _) (by decide +kernel) (by decide +kernel)

/-- A key that ends with a slash is not shown, and one with two of them in a row leads astray. -/
theorem slashed_tree_wrong : ¬ ∀ (lower : String → String) (b : BrowseState), b.AtRoot lower →
    (∀ item ∈ b.items, validateKey item.key = .ok ()) → (b.items.map MediaItem.key).Nodup →
    b.ShowsEachOnce lower ∧ b.CountsFiles lower ∧ b.UpUndoesInto lower := by
  intro h
  have htree := h String.toLower (topOf [⟨"d/", "", 1⟩, ⟨"d//f", "", 1⟩]) (topOf_atRoot _)
    (by decide +kernel) (by decide +kernel)
  exact absurd (plain_of_tree (topOf_atRoot _) htree.1 htree.2.2) (by decide +kernel)

end KaidaDB
