import KaidaDB.Api.Proof.LongStreams
import KaidaDB.Lib.Separated
import KaidaDB.Tui.Browse

/-!
# The entries of the browser

An item below the prefix adds the directory that its key continues with, or the file that it is, or
nothing (`addEntry_cases`), which says what the entries are (`mem_entriesOf`). Whatever the user does,
the entries are those of the items that match the search (`Fresh.acts`).
-/

namespace KaidaDB

open Std (ExtTreeMap ExtTreeSet)

variable {showHidden : Bool} {browsePrefix : String} {lower : String → String}

/-! ## What an item adds -/

/-- The entry is not hidden. -/
def Shown (showHidden : Bool) (name : String) : Prop := showHidden = true ∨ startsWith name "." = false

/-- The key is below a directory at the prefix. -/
structure DirOf (showHidden : Bool) (browsePrefix key dirName : String) : Prop where
  plain : '/' ∉ dirName.toList
  below : startsWith key (browsePrefix ++ dirName ++ "/") = true
  shown : Shown showHidden dirName

/-- The key is that of a file at the prefix. -/
structure FileOf (showHidden : Bool) (browsePrefix key name : String) : Prop where
  key_eq : key = browsePrefix ++ name
  ne : name ≠ ""
  plain : '/' ∉ name.toList
  shown : Shown showHidden name

def fileEntry (item : MediaItem) (name : String) : BrowseEntry :=
  ⟨name, false, some item.key, 0, item.totalSize⟩

def dirEntry (browsePrefix : String) (items : List MediaItem) (dirName : String) : BrowseEntry :=
  ⟨dirName, true, none,
    (items.filter fun item => startsWith item.key (browsePrefix ++ dirName ++ "/")).length, 0⟩

theorem DirOf.toList_eq {key dirName : String} (h : DirOf showHidden browsePrefix key dirName) :
    ∃ r, key.toList = browsePrefix.toList ++ (dirName.toList ++ '/' :: r) := by
  obtain ⟨r, hr⟩ := startsWith_iff.1 h.below
  exact ⟨r, by simpa using hr⟩

theorem DirOf.unique {key d d' : String} (h : DirOf showHidden browsePrefix key d)
    (h' : DirOf showHidden browsePrefix key d') : d = d' := by
  obtain ⟨r, hr⟩ := h.toList_eq
  obtain ⟨r', hr'⟩ := h'.toList_eq
  have heq := congrArg (List.takeWhile (· ≠ '/')) (List.append_cancel_left (hr.symm.trans hr'))
  rw [Separated.takeWhile_append h.plain, Separated.takeWhile_append h'.plain] at heq
  exact String.toList_inj.1 heq

theorem DirOf.not_file {key dirName name : String} (h : DirOf showHidden browsePrefix key dirName)
    (hfile : FileOf showHidden browsePrefix key name) : False := by
  obtain ⟨r, hr⟩ := h.toList_eq
  rw [hfile.key_eq, String.toList_append] at hr
  exact hfile.plain (List.append_cancel_left hr ▸ by simp)

theorem FileOf.unique {key name name' : String} (h : FileOf showHidden browsePrefix key name)
    (h' : FileOf showHidden browsePrefix key name') : name = name' :=
  String.append_right_inj _ |>.1 (h.key_eq.symm.trans h'.key_eq)

/-- The rest of a key behind the prefix says what is below it. -/
theorem dirOf_iff {key rest d : String} (hkey : key = browsePrefix ++ rest) :
    DirOf showHidden browsePrefix key d ↔
      '/' ∉ d.toList ∧ (∃ r, rest.toList = d.toList ++ '/' :: r) ∧ Shown showHidden d := by
  constructor
  · intro h
    obtain ⟨r, hr⟩ := h.toList_eq
    rw [hkey, String.toList_append] at hr
    exact ⟨h.plain, ⟨r, List.append_cancel_left hr⟩, h.shown⟩
  · rintro ⟨hplain, ⟨r, hr⟩, hshown⟩
    exact ⟨hplain, startsWith_iff.2 ⟨r, by simp [hkey, hr]⟩, hshown⟩

theorem fileOf_iff {key rest name : String} (hkey : key = browsePrefix ++ rest) :
    FileOf showHidden browsePrefix key name ↔
      name = rest ∧ rest ≠ "" ∧ '/' ∉ rest.toList ∧ Shown showHidden rest := by
  constructor
  · intro h
    obtain rfl := String.append_right_inj _ |>.1 (h.key_eq.symm.trans hkey)
    exact ⟨rfl, h.ne, h.plain, h.shown⟩
  · rintro ⟨rfl, hne, hplain, hshown⟩
    exact ⟨hkey, hne, hplain, hshown⟩

theorem not_shown {name : String} :
    ¬ Shown showHidden name ↔ showHidden = false ∧ startsWith name "." = true := by
  simp [Shown]

/-- **An item adds a directory, a file, or nothing** if its key is below no entry. -/
theorem addEntry_cases (found : ExtTreeSet String × List BrowseEntry) (item : MediaItem) :
    (∃ d, DirOf showHidden browsePrefix item.key d ∧
      addEntry showHidden browsePrefix found item = (found.1.insert d, found.2)) ∨
    (∃ name, FileOf showHidden browsePrefix item.key name ∧
      addEntry showHidden browsePrefix found item = (found.1, found.2 ++ [fileEntry item name])) ∨
    ((∀ d, ¬ DirOf showHidden browsePrefix item.key d) ∧
      (∀ name, ¬ FileOf showHidden browsePrefix item.key name) ∧
      addEntry showHidden browsePrefix found item = found) := by
  cases hpre : startsWith item.key browsePrefix with
  | false =>
    have hne : browsePrefix ≠ "" := by
      rintro rfl
      rw [startsWith_empty] at hpre
      cases hpre
    refine .inr (.inr ⟨fun d h => ?_, fun name h => ?_, ?_⟩)
    · have := startsWith_trans h.below (startsWith_trans (startsWith_append _ _) (startsWith_append _ _))
      rw [hpre] at this
      cases this
    · rw [h.key_eq, startsWith_append] at hpre
      cases hpre
    · rw [addEntry, if_pos ⟨hne, hpre⟩]
  | true =>
    obtain ⟨suffix, hsuffix⟩ := startsWith_iff.1 hpre
    obtain ⟨rest, rfl⟩ : ∃ rest : String, rest.toList = suffix := ⟨_, String.toList_ofList⟩
    have hkey : item.key = browsePrefix ++ rest := String.toList_inj.1 (by simp [hsuffix])
    have hbelow : ¬ (browsePrefix ≠ "" ∧ startsWith item.key browsePrefix = false) := by simp [hpre]
    simp only [dirOf_iff hkey, fileOf_iff hkey]
    rw [addEntry, if_neg hbelow]
    dsimp only
    rw [hsuffix, List.drop_left, String.ofList_toList]
    by_cases hempty : rest = ""
    · subst hempty
      exact .inr (.inr ⟨by simp, by simp, by simp⟩)
    rw [if_neg (fun h => hempty (String.toList_eq_nil_iff.1 h))]
    by_cases hslash : '/' ∈ rest.toList
    · obtain ⟨d, r, hrest, hd⟩ := List.eq_append_cons_of_mem hslash
      obtain ⟨d, rfl⟩ : ∃ s : String, s.toList = d := ⟨_, String.toList_ofList⟩
      rw [if_pos hslash, hrest, Separated.takeWhile_append hd, String.ofList_toList]
      by_cases hshown : Shown showHidden d
      · rw [if_neg fun h => not_shown.2 h hshown]
        exact .inl ⟨d, ⟨hd, ⟨r, rfl⟩, hshown⟩, rfl⟩
      · rw [if_pos (not_shown.1 hshown)]
        refine .inr (.inr ⟨?_, fun name h => h.2.2.1 (by simp), rfl⟩)
        rintro d' ⟨hd', ⟨r', hr'⟩, hshown'⟩
        have heq := congrArg (List.takeWhile (· ≠ '/')) hr'
        rw [Separated.takeWhile_append hd, Separated.takeWhile_append hd'] at heq
        exact hshown (String.toList_inj.1 heq ▸ hshown')
    · have hnodir : ∀ d : String, ¬ ('/' ∉ d.toList ∧ (∃ r, rest.toList = d.toList ++ '/' :: r) ∧
          Shown showHidden d) := by
        rintro d ⟨-, ⟨r, hr⟩, -⟩
        exact hslash (by simp [hr])
      rw [if_neg hslash]
      by_cases hshown : Shown showHidden rest
      · refine .inr (.inl ⟨rest, ⟨rfl, hempty, hslash, hshown⟩, ?_⟩)
        rw [if_neg fun h => not_shown.2 h hshown]
        split_ifs with hmarker hhidden
        · rfl
        · rfl
        · have hmarker := String.toList_inj.1 (not_not.1 hmarker)
          rw [hmarker] at hshown
          exact absurd (hshown.resolve_left hhidden) (by decide)
      · refine .inr (.inr ⟨hnodir, fun name h => hshown h.2.2.2, ?_⟩)
        obtain ⟨rfl, hdot⟩ := not_shown.1 hshown
        have hhidden : false = false ∧ startsWith rest "." = true := ⟨rfl, hdot⟩
        rw [if_pos hhidden, if_neg Bool.false_ne_true, ite_self]

/-! ## All entries -/

theorem foldl_addEntry (items : List MediaItem) : ∀ (found : ExtTreeSet String × List BrowseEntry),
    let result := items.foldl (addEntry showHidden browsePrefix) found
    (∀ d, d ∈ result.1 ↔ d ∈ found.1 ∨ ∃ item ∈ items, DirOf showHidden browsePrefix item.key d) ∧
    ∀ e, e ∈ result.2 ↔ e ∈ found.2 ∨
      ∃ item ∈ items, ∃ name, FileOf showHidden browsePrefix item.key name ∧ e = fileEntry item name := by
  induction items with
  | nil => simp
  | cons item items ih =>
    intro found
    obtain ⟨hdirs, hfiles⟩ := ih (addEntry showHidden browsePrefix found item)
    dsimp only at hdirs hfiles ⊢
    rw [List.foldl_cons]
    simp only [hdirs, hfiles, List.exists_mem_cons_iff]
    rcases @addEntry_cases showHidden browsePrefix found item with
      ⟨d, hd, heq⟩ | ⟨name, hname, heq⟩ | ⟨hnodir, hnofile, heq⟩
    · have honly : ∀ d', DirOf showHidden browsePrefix item.key d' ↔ d' = d := fun d' =>
        ⟨fun h => h.unique hd, fun h => h ▸ hd⟩
      have hnofile : ∀ name, ¬ FileOf showHidden browsePrefix item.key name := fun _ => hd.not_file
      refine ⟨fun d' => ?_, fun e => by simp [heq, hnofile]⟩
      rw [heq, ExtTreeSet.mem_insert, honly, Std.LawfulEqCmp.compare_eq_iff_eq, eq_comm (a := d)]
      tauto
    · have honly : ∀ name', FileOf showHidden browsePrefix item.key name' ↔ name' = name := fun name' =>
        ⟨fun h => h.unique hname, fun h => h ▸ hname⟩
      have hnodir : ∀ d, ¬ DirOf showHidden browsePrefix item.key d := fun _ h => h.not_file hname
      simp [heq, honly, hnodir, or_assoc]
    · simp [heq, hnodir, hnofile]

/-- **The entries** of some items. -/
theorem mem_entriesOf {items : List MediaItem} {e : BrowseEntry} :
    e ∈ entriesOf showHidden browsePrefix lower items ↔
      (∃ d, (∃ item ∈ items, DirOf showHidden browsePrefix item.key d) ∧
        e = dirEntry browsePrefix items d) ∨
      ∃ item ∈ items, ∃ name, FileOf showHidden browsePrefix item.key name ∧ e = fileEntry item name := by
  obtain ⟨hdirs, hfiles⟩ := @foldl_addEntry showHidden browsePrefix items (∅, [])
  rw [entriesOf]
  dsimp only at hdirs hfiles ⊢
  simp only [ExtTreeSet.not_mem_empty, List.not_mem_nil, false_or] at hdirs hfiles
  rw [List.mem_append, List.mem_mergeSort, List.mem_map]
  simp only [ExtTreeSet.mem_toList, hdirs, hfiles, dirEntry, eq_comm]

theorem dirEntry_of_mem {items : List MediaItem} {e : BrowseEntry}
    (h : e ∈ entriesOf showHidden browsePrefix lower items) (hdir : e.isDir = true) :
    (∃ item ∈ items, DirOf showHidden browsePrefix item.key e.name) ∧
      e = dirEntry browsePrefix items e.name := by
  rcases mem_entriesOf.1 h with ⟨d, hd, rfl⟩ | ⟨item, -, name, -, rfl⟩
  · exact ⟨hd, rfl⟩
  · cases hdir

/-! ## The view is up to date -/

theorem filterMap_snd (items : List MediaItem) : ∀ {l : List (MediaItem × Nat)},
    (∀ p ∈ l, items[p.2]? = some p.1) → (l.map Prod.snd).filterMap (items[·]?) = l.map Prod.fst
  | [], _ => rfl
  | p :: l, h => by
    rw [List.map_cons, List.map_cons, List.filterMap_cons_some (h p List.mem_cons_self),
      filterMap_snd items fun q hq => h q (List.mem_cons_of_mem _ hq)]

/-- The indices kept are those of the items that match. -/
theorem filterMap_filterItems (lower : String → String) (query : String) (items : List MediaItem) :
    (filterItems lower query items).filterMap (items[·]?)
      = items.filter (MediaItem.matchesQuery lower query) := by
  have hget : ∀ p ∈ items.zipIdx, items[p.2]? = some p.1 := fun p hp => List.mem_zipIdx_iff_getElem?.1 hp
  rw [filterItems]
  split_ifs with hquery
  · have hall : items.filter (MediaItem.matchesQuery lower query) = items :=
      List.filter_eq_self.2 fun item _ => by simp [MediaItem.matchesQuery, hquery]
    have hrange : List.range items.length = items.zipIdx.map Prod.snd := by
      rw [List.zipIdx_map_snd, List.range_eq_range']
    rw [hall, hrange, filterMap_snd items hget, List.zipIdx_map_fst]
  · rw [filterMap_snd items fun p hp => hget p (List.mem_of_mem_filter hp)]
    have hfilter := List.filter_map (f := Prod.fst) (p := MediaItem.matchesQuery lower query)
      (l := items.zipIdx)
    rw [List.zipIdx_map_fst] at hfilter
    exact hfilter.symm

namespace BrowseState

variable {b : BrowseState}

/-- The view shows what matches the search. -/
structure Fresh (lower : String → String) (b : BrowseState) : Prop where
  filtered : b.filteredItems = filterItems lower b.searchQuery b.items
  entries : b.browseEntries = entriesOf b.showHiddenFiles b.browsePrefix lower b.visible
  selected : b.selected ≤ b.browseEntries.length - 1

@[simp] theorem rebuild_items : (b.rebuildBrowseEntries lower).items = b.items := rfl

@[simp] theorem rebuild_searchQuery :
    (b.rebuildBrowseEntries lower).searchQuery = b.searchQuery := rfl

@[simp] theorem rebuild_showHiddenFiles :
    (b.rebuildBrowseEntries lower).showHiddenFiles = b.showHiddenFiles := rfl

@[simp] theorem rebuild_browsePrefix :
    (b.rebuildBrowseEntries lower).browsePrefix = b.browsePrefix := rfl

@[simp] theorem rebuild_browsePos : (b.rebuildBrowseEntries lower).browsePos = b.browsePos := rfl

theorem Fresh.visible_eq (h : b.Fresh lower) :
    b.visible = b.items.filter (MediaItem.matchesQuery lower b.searchQuery) := by
  rw [visible, h.filtered, filterMap_filterItems]

theorem rebuild_fresh (h : b.filteredItems = filterItems lower b.searchQuery b.items) :
    (b.rebuildBrowseEntries lower).Fresh lower where
  filtered := h
  entries := rfl
  selected := by
    simp only [rebuildBrowseEntries]
    split_ifs <;> omega

/-- The entry under a cursor that is among the entries. -/
theorem rebuild_selected {e : BrowseEntry}
    (h : (entriesOf b.showHiddenFiles b.browsePrefix lower b.visible)[b.selected]? = some e) :
    (b.rebuildBrowseEntries lower).selectedBrowseEntry = some e := by
  have hlt := (List.getElem?_eq_some_iff.1 h).1
  rw [selectedBrowseEntry, rebuildBrowseEntries]
  dsimp only
  rw [if_neg (by omega), h]

theorem applyFilter_fresh (b : BrowseState) : (b.applyFilter lower).Fresh lower := rebuild_fresh rfl

/-- The cursor may move among the entries. -/
theorem Fresh.select (h : b.Fresh lower) {n : Nat} (hn : n ≤ b.browseEntries.length - 1) :
    Fresh lower { b with selected := n } :=
  ⟨h.filtered, h.entries, hn⟩

/-- **The view is up to date whatever the user does.** -/
theorem Fresh.act (h : b.Fresh lower) (a : BrowseAct) : (b.act lower a).Fresh lower := by
  cases a with
  | next =>
    simp only [BrowseState.act, next]
    split_ifs
    · exact h
    · exact h.select (Nat.min_le_right _ _)
  | previous => exact h.select (Nat.le_trans (Nat.sub_le _ _) h.selected)
  | first => exact h.select (Nat.zero_le _)
  | last =>
    simp only [BrowseState.act, last]
    split_ifs
    · exact h
    · exact h.select (le_refl _)
  | browseInto =>
    simp only [BrowseState.act, browseInto]
    cases b.selectedBrowseEntry with
    | none => exact h
    | some entry =>
      dsimp only
      split_ifs
      · exact rebuild_fresh h.filtered
      · exact h
  | browseUp =>
    simp only [BrowseState.act, browseUp]
    split_ifs
    · exact h
    · exact rebuild_fresh h.filtered
  | toggleHiddenFiles => exact rebuild_fresh h.filtered
  | refresh items => exact applyFilter_fresh _
  | search query => exact applyFilter_fresh _

theorem Fresh.acts (h : b.Fresh lower) (as : List BrowseAct) :
    (as.foldl (BrowseState.act lower) b).Fresh lower := by
  induction as generalizing b with
  | nil => exact h
  | cons a as ih => exact ih (h.act a)

/-- Bringing such a view up to date changes nothing. -/
theorem Fresh.applyFilter_eq (h : b.Fresh lower) : b.applyFilter lower = b := by
  have hselected : (if b.browseEntries.length ≤ b.selected then b.browseEntries.length - 1
      else b.selected) = b.selected := by
    have := h.selected
    split_ifs <;> omega
  rw [applyFilter, ← h.filtered]
  change b.rebuildBrowseEntries lower = b
  rw [rebuildBrowseEntries, ← h.entries, hselected]

/-! ## Deleting a directory -/

theorem Fresh.selected_dir (h : b.Fresh lower) {entry : BrowseEntry}
    (hentry : b.selectedBrowseEntry = some entry) (hdir : entry.isDir = true) :
    entry.itemCount = (b.countedItems (b.browsePrefix ++ entry.name ++ "/")).length := by
  have hmem := List.mem_of_getElem? hentry
  rw [h.entries] at hmem
  rw [(dirEntry_of_mem hmem hdir).2]
  rfl

end BrowseState

/-- A filtered list is as long as one filtered less if and only if nothing more is left out. -/
theorem length_filter_filter_eq {α : Type} (f g : α → Bool) (l : List α) :
    ((l.filter f).filter g).length = (l.filter g).length ↔ ∀ a ∈ l, g a = true → f a = true := by
  rw [List.filter_filter]
  induction l with
  | nil => simp
  | cons a l ih =>
    have hle : (l.filter fun a => g a && f a).length ≤ (l.filter g).length :=
      (List.monotone_filter_right l fun a h => (Bool.and_eq_true_iff.1 h).1).length_le
    rw [List.forall_mem_cons, ← ih]
    cases hg : g a <;> cases hf : f a <;> simp [hg, hf]
    omega

/-- **The dialog announces what is deleted if and only if** all items below the directory match the
search, in every view that the user gets to. -/
theorem announced_iff (lower : String → String) (b : BrowseState) (as : List BrowseAct)
    {entry : BrowseEntry}
    (hentry : (as.foldl (BrowseState.act lower) (b.applyFilter lower)).selectedBrowseEntry = some entry)
    (hdir : entry.isDir = true) :
    let view := as.foldl (BrowseState.act lower) (b.applyFilter lower)
    let dirPrefix := view.browsePrefix ++ entry.name ++ "/"
    (view.announced = (dirPrefix, view.deleteRequests.length) ∧
        ∀ key ∈ view.deleteRequests, key ∈ (view.countedItems dirPrefix).map MediaItem.key) ↔
      ∀ item ∈ view.items, startsWith item.key dirPrefix = true →
        item.matchesQuery lower view.searchQuery = true := by
  intro view dirPrefix
  have hfresh : view.Fresh lower := (BrowseState.applyFilter_fresh b).acts as
  have hvisible : view.visible = view.items.filter (MediaItem.matchesQuery lower view.searchQuery) :=
    hfresh.visible_eq
  have hrequests : view.deleteRequests
      = (view.items.filter fun item => startsWith item.key dirPrefix).map MediaItem.key := by
    have hprefix : view.selectedDirPrefix = some dirPrefix := by
      rw [BrowseState.selectedDirPrefix, hentry, Option.bind_some, if_pos hdir]
    rw [BrowseState.deleteRequests, hprefix]
  have hannounced : view.announced = (dirPrefix, entry.itemCount) := by
    rw [BrowseState.announced, hentry, Option.filter_some_pos hdir]
  have hcount : entry.itemCount
      = ((view.items.filter (MediaItem.matchesQuery lower view.searchQuery)).filter
        fun item => startsWith item.key dirPrefix).length := by
    rw [hfresh.selected_dir hentry hdir, BrowseState.countedItems, hvisible]
  rw [hannounced, hrequests, hcount, List.length_map, Prod.mk.injEq, length_filter_filter_eq,
    BrowseState.countedItems, hvisible]
  constructor
  · rintro ⟨⟨-, hall⟩, -⟩
    exact hall
  · intro hall
    refine ⟨⟨rfl, hall⟩, fun key hkey => ?_⟩
    obtain ⟨item, hitem, rfl⟩ := List.mem_map.1 hkey
    obtain ⟨hmem, hbelow⟩ := List.mem_filter.1 hitem
    exact List.mem_map_of_mem
      (List.mem_filter.2 ⟨List.mem_filter.2 ⟨hmem, hall item hmem hbelow⟩, hbelow⟩)

/-- Two items of a directory, one of which a search for `a` matches. -/
def searched : BrowseState :=
  { BrowseState.new with
    items := [⟨"d/a", "", 1⟩, ⟨"d/b", "", 1⟩]
    searchQuery := "a" }

theorem searched_entry : (searched.applyFilter String.toLower).selectedBrowseEntry
    = some ⟨"d", true, none, 1, 0⟩ := by
  decide +kernel

theorem announced_iff_searched :
    let view := searched.applyFilter String.toLower
    (view.announced = ("d/", view.deleteRequests.length) ∧
        ∀ key ∈ view.deleteRequests, key ∈ (view.countedItems "d/").map MediaItem.key) ↔
      ∀ item ∈ searched.items, startsWith item.key "d/" = true →
        item.matchesQuery String.toLower "a" = true :=
  announced_iff String.toLower searched [] searched_entry rfl

/-- One item is announced, and two are deleted. -/
theorem unannounced_deleted : ¬ ∀ (lower : String → String) (b : BrowseState) (entry : BrowseEntry),
    (b.applyFilter lower).selectedBrowseEntry = some entry → entry.isDir = true →
    (b.applyFilter lower).announced.2 = (b.applyFilter lower).deleteRequests.length ∧
      ∀ key ∈ (b.applyFilter lower).deleteRequests,
        key ∈ ((b.applyFilter lower).countedItems (b.browsePrefix ++ entry.name ++ "/")).map
          MediaItem.key := by
  intro h
  exact absurd (h String.toLower searched _ searched_entry rfl).1 (by decide +kernel)

end KaidaDB
