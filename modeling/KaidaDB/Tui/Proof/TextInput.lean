import KaidaDB.Tui.TextInput

/-!
# Cursors at boundaries of characters

A field whose cursor is at a boundary is two texts with the cursor between them
(`onBoundary_iff`), and every edit makes another one of it (`Edits`). Modes that are left by clearing
only the text of a key are entered by setting the cursor as well: the key of an upload has its cursor
at a boundary in all modes between `enter_store_mode` and the upload (`InputState.Sound`). So no key
makes an edit panic (`cursors_on_boundary`).
-/

namespace KaidaDB

open ByteIndex

open String (utf8Len)

/-! ## Edits -/

namespace TextField

/-- The field with a cursor between `a` and `b`. -/
def between (a b : List Char) : TextField := ⟨String.ofList (a ++ b), utf8Len a⟩

section
variable (a b : List Char)

@[simp] theorem between_cursor : (between a b).cursor = utf8Len a := rfl

@[simp] theorem between_toList : (between a b).text.toList = a ++ b := String.toList_ofList

@[simp] theorem between_size : (between a b).text.utf8ByteSize = utf8Len (a ++ b) :=
  String.utf8ByteSize_ofList _

end

theorem onBoundary_iff (field : TextField) : field.OnBoundary ↔ ∃ a b, field = between a b := by
  constructor
  · rintro ⟨-, a, b, htext, hcursor⟩
    refine ⟨a, b, ?_⟩
    rw [between, ← htext, String.ofList_toList, hcursor]
  · rintro ⟨a, b, rfl⟩
    have hbound : IsBoundary (between a b).text.toList (utf8Len a) := by
      rw [between_toList]
      exact isBoundary_append a b
    refine ⟨?_, hbound⟩
    rw [between_size, between_cursor, String.utf8Len_append]
    exact Nat.le_add_right _ _

theorem onBoundary_between (a b : List Char) : (between a b).OnBoundary :=
  (onBoundary_iff _).2 ⟨a, b, rfl⟩

theorem onBoundary_empty : empty.OnBoundary := onBoundary_between [] []

theorem filled_eq (text : String) : filled text = between text.toList [] := by
  rw [filled, between, List.append_nil, String.ofList_toList, ← String.utf8ByteSize_ofList,
    String.ofList_toList]

theorem onBoundary_filled (text : String) : (filled text).OnBoundary :=
  filled_eq text ▸ onBoundary_between _ _

/-- The edit never panics at a boundary, and leaves the cursor at one. -/
def Edits (edit : TextField → Option TextField) : Prop :=
  ∀ field, field.OnBoundary → ∃ field', edit field = some field' ∧ field'.OnBoundary

theorem edits_of_between {edit : TextField → Option TextField}
    (h : ∀ a b, ∃ a' b', edit (between a b) = some (between a' b')) : Edits edit := by
  intro field hfield
  obtain ⟨a, b, rfl⟩ := (onBoundary_iff field).1 hfield
  obtain ⟨a', b', hedit⟩ := h a b
  exact ⟨_, hedit, onBoundary_between a' b'⟩

/-- What is before the cursor, and behind it. -/
theorem slice_before (a b : List Char) : slice? (a ++ b) 0 (utf8Len a) = some a :=
  slice?_append [] a b

theorem slice_after (a b : List Char) : slice? (a ++ b) (utf8Len a) (utf8Len (a ++ b)) = some b := by
  have h := slice?_append a b []
  rwa [List.append_nil] at h

/-- The place behind the character at the cursor. -/
theorem next_eq (a : List Char) (c : Char) (b : List Char) :
    ((nthIndex (c :: b) 1).map fun i => utf8Len a + i).getD (utf8Len (a ++ c :: b))
      = utf8Len (a ++ [c]) := by
  cases b with
  | nil => rfl
  | cons d b =>
    have hnth : nthIndex (c :: d :: b) 1 = some (utf8Len [c]) := nthIndex_append [c] d b
    rw [hnth, String.utf8Len_append a [c]]
    rfl

theorem insertChar_between (c : Char) (a b : List Char) :
    (between a b).insertChar c = some (between (a ++ [c]) b) := by
  rw [insertChar, between_toList, between_cursor, insert?_append, between, String.utf8Len_append,
    utf8Len_singleton, List.append_assoc]
  rfl

theorem backspace_between (a : List Char) (c : Char) (b : List Char) :
    (between (a ++ [c]) b).backspace = some (between a b) := by
  rw [backspace, between_toList, between_cursor, if_pos (utf8Len_concat_pos a c), slice_before,
    Option.bind_eq_bind, Option.bind_some, lastIndex_append, Option.getD_some]
  dsimp only
  rw [drain?_append]
  rfl

theorem moveLeft_between (a : List Char) (c : Char) (b : List Char) :
    (between (a ++ [c]) b).moveLeft = some (between a (c :: b)) := by
  rw [moveLeft, between_toList, between_cursor, if_pos (utf8Len_concat_pos a c), slice_before,
    Option.bind_eq_bind, Option.bind_some, lastIndex_append, Option.getD_some, between, between,
    List.append_assoc]
  rfl

theorem delete_between (a : List Char) (c : Char) (b : List Char) :
    (between a (c :: b)).delete = some (between a b) := by
  have hdrain := drain?_append a [c] b
  rw [List.append_assoc, List.singleton_append] at hdrain
  rw [delete, between_toList, between_cursor, between_size, if_pos (lt_utf8Len a c b), slice_after,
    Option.bind_eq_bind, Option.bind_some, next_eq]
  dsimp only
  rw [hdrain]
  rfl

theorem moveRight_between (a : List Char) (c : Char) (b : List Char) :
    (between a (c :: b)).moveRight = some (between (a ++ [c]) b) := by
  rw [moveRight, between_toList, between_cursor, between_size, if_pos (lt_utf8Len a c b), slice_after,
    Option.bind_eq_bind, Option.bind_some, next_eq, between, between, List.append_assoc]
  rfl

theorem edits_insertChar (c : Char) : Edits (·.insertChar c) :=
  edits_of_between fun a b => ⟨_, _, insertChar_between c a b⟩

/-- An edit that does nothing at the start and goes by the character before the cursor. -/
theorem edits_before {f : TextField → Option TextField}
    (hstart : ∀ b, f (between [] b) = some (between [] b))
    (h : ∀ a c b, ∃ a' b', f (between (a ++ [c]) b) = some (between a' b')) : Edits f := by
  refine edits_of_between fun a b => ?_
  rcases List.eq_nil_or_concat a with rfl | ⟨a, c, rfl⟩
  · exact ⟨[], b, hstart b⟩
  · rw [List.concat_eq_append]
    exact h a c b

theorem edits_backspace : Edits backspace :=
  edits_before (fun _ => rfl) fun a c b => ⟨_, _, backspace_between a c b⟩

theorem edits_moveLeft : Edits moveLeft :=
  edits_before (fun _ => rfl) fun a c b => ⟨_, _, moveLeft_between a c b⟩

/-- An edit that does nothing at the end and goes by the character after the cursor. -/
theorem edits_after {f : TextField → Option TextField}
    (hend : ∀ field, ¬ field.cursor < field.text.utf8ByteSize → f field = some field)
    (h : ∀ a c b, ∃ a' b', f (between a (c :: b)) = some (between a' b')) : Edits f := by
  refine edits_of_between fun a b => ?_
  cases b with
  | nil =>
    refine ⟨a, [], hend _ ?_⟩
    rw [between_cursor, between_size, List.append_nil]
    exact Nat.lt_irrefl _
  | cons c b => exact h a c b

theorem edits_delete : Edits delete :=
  edits_after (fun _ hend => if_neg hend) fun a c b => ⟨_, _, delete_between a c b⟩

theorem edits_moveRight : Edits moveRight :=
  edits_after (fun _ hend => if_neg hend) fun a c b => ⟨_, _, moveRight_between a c b⟩

theorem edits_home : Edits home := edits_of_between fun a b => ⟨[], a ++ b, rfl⟩

theorem edits_toEnd : Edits toEnd := by
  refine edits_of_between fun a b => ⟨a ++ b, [], ?_⟩
  rw [toEnd, between_size, between, between, List.append_nil]

end TextField

/-! ## Modes -/

/-- The key of an upload is being made: the modes between `enter_store_mode` and the upload. -/
def InputMode.Storing : InputMode → Prop
  | .storeKey | .fileBrowser | .pathBrowser | .newDirInput | .browserFilter | .uploadConfirm
  | .clearMarksConfirm => True
  | _ => False

namespace InputState

structure Sound (app : InputState) : Prop where
  newDir : app.newDir.OnBoundary
  rename : app.rename.OnBoundary
  mkdir : app.mkdir.OnBoundary
  storeKey : app.inputMode.Storing → app.storeKey.OnBoundary

/-- A step has not panicked, and its state is sound. -/
def Safe : Except Exit InputState → Prop
  | .ok app => app.Sound
  | .error exit => exit = .quit

variable {seen : Surroundings} {app : InputState}

theorem sound_new : new.Sound where
  newDir := TextField.onBoundary_empty
  rename := TextField.onBoundary_empty
  mkdir := TextField.onBoundary_empty
  storeKey _ := TextField.onBoundary_empty

theorem Sound.toMode (h : app.Sound) {mode : InputMode} (hmode : mode.Storing → app.inputMode.Storing) :
    (app.toMode mode).Sound := ⟨h.newDir, h.rename, h.mkdir, fun hm => h.storeKey (hmode hm)⟩

/-- Nothing is asked of the key of an upload in other modes. -/
theorem Sound.leave (h : app.Sound) (storeKey : TextField) {mode : InputMode} (hmode : ¬ mode.Storing) :
    ({ app with storeKey, inputMode := mode } : InputState).Sound :=
  ⟨h.newDir, h.rename, h.mkdir, fun hm => absurd hm hmode⟩

theorem Sound.onNewDir (h : app.Sound) {edit : TextField → Option TextField}
    (hedit : TextField.Edits edit) : Safe (orPanic (app.onNewDir edit)) := by
  obtain ⟨field, hfield, hbound⟩ := hedit _ h.newDir
  rw [InputState.onNewDir, hfield]
  exact ⟨hbound, h.rename, h.mkdir, h.storeKey⟩

theorem Sound.onRename (h : app.Sound) {edit : TextField → Option TextField}
    (hedit : TextField.Edits edit) : Safe (orPanic (app.onRename edit)) := by
  obtain ⟨field, hfield, hbound⟩ := hedit _ h.rename
  rw [InputState.onRename, hfield]
  exact ⟨h.newDir, hbound, h.mkdir, h.storeKey⟩

theorem Sound.onMkdir (h : app.Sound) {edit : TextField → Option TextField}
    (hedit : TextField.Edits edit) : Safe (orPanic (app.onMkdir edit)) := by
  obtain ⟨field, hfield, hbound⟩ := hedit _ h.mkdir
  rw [InputState.onMkdir, hfield]
  exact ⟨h.newDir, h.rename, hbound, h.storeKey⟩

theorem Sound.onStoreKey (h : app.Sound) (hmode : app.inputMode.Storing)
    {edit : TextField → Option TextField} (hedit : TextField.Edits edit) :
    Safe (orPanic (app.onStoreKey edit)) := by
  obtain ⟨field, hfield, hbound⟩ := hedit _ (h.storeKey hmode)
  rw [InputState.onStoreKey, hfield]
  exact ⟨h.newDir, h.rename, h.mkdir, fun _ => hbound⟩

theorem Sound.enterRenameMode (h : app.Sound) (seen : Surroundings) : (app.enterRenameMode seen).Sound := by
  unfold InputState.enterRenameMode
  split
  · exact ⟨h.newDir, TextField.onBoundary_filled _, h.mkdir, nofun⟩
  · exact ⟨h.newDir, TextField.onBoundary_filled _, h.mkdir, nofun⟩
  · exact h

theorem Sound.enterDeleteConfirm (h : app.Sound) (seen : Surroundings) :
    (app.enterDeleteConfirm seen).Sound := by
  unfold InputState.enterDeleteConfirm
  split
  · exact h.toMode nofun
  · split_ifs
    · exact h.toMode nofun
    · exact h

theorem Sound.viewDetail (h : app.Sound) (seen : Surroundings) : (app.viewDetail seen).Sound := by
  unfold InputState.viewDetail
  split
  · split_ifs
    · exact h.toMode nofun
    · exact h
  · exact h

theorem Sound.enterMkdirMode (h : app.Sound) : app.enterMkdirMode.Sound :=
  ⟨h.newDir, h.rename, TextField.onBoundary_empty, nofun⟩

theorem Sound.enterStoreMode (h : app.Sound) : app.enterStoreMode.Sound :=
  ⟨h.newDir, h.rename, h.mkdir, fun _ => TextField.onBoundary_empty⟩

theorem Sound.beginUpload (h : app.Sound) (seen : Surroundings) : (app.beginUpload seen).Sound := by
  refine h.toMode fun hmode => ?_
  split_ifs at hmode <;> exact hmode.elim

theorem Sound.drainUploadEvents (h : app.Sound) (seen : Surroundings) :
    (app.drainUploadEvents seen).Sound := by
  unfold InputState.drainUploadEvents
  split_ifs
  · exact h.toMode nofun
  · exact h

/-- The text alone is cleared, on the way to `Normal`. -/
theorem Sound.clearStoreKeyInput (h : app.Sound) : (app.clearStoreKeyInput.toMode .normal).Sound :=
  h.leave _ nofun

/-! ## Keys -/

theorem Sound.normalKey (h : app.Sound) (control : Bool) (code : KeyCode) :
    Safe (app.normalKey seen control code) := by
  unfold InputState.normalKey
  split
  · split_ifs
    · rfl
    · exact h
  · split_ifs
    · rfl
    · exact h
  · exact h.viewDetail seen
  · exact h.viewDetail seen
  · exact h.viewDetail seen
  · exact h.enterDeleteConfirm seen
  · exact h.enterRenameMode seen
  · exact h.enterMkdirMode
  · exact h.enterStoreMode
  · exact h.toMode nofun
  · exact h

theorem Sound.pathBrowserKey (h : app.Sound) (hmode : app.inputMode = .pathBrowser) (code : KeyCode) :
    (app.pathBrowserKey code).Sound := by
  have hstoring : app.inputMode.Storing := hmode ▸ trivial
  unfold InputState.pathBrowserKey
  split
  · exact h.toMode nofun
  · exact ⟨TextField.onBoundary_empty, h.rename, h.mkdir, fun _ => h.storeKey hstoring⟩
  · exact h.toMode fun _ => hstoring
  · exact h.toMode fun _ => hstoring
  · exact h

theorem Sound.newDirKey (h : app.Sound) (hmode : app.inputMode = .newDirInput) (code : KeyCode) :
    Safe (orPanic (app.newDirKey code)) := by
  have hstoring : app.inputMode.Storing := hmode ▸ trivial
  unfold InputState.newDirKey
  split
  · exact h.toMode fun _ => hstoring
  · exact h.toMode fun _ => hstoring
  · exact h.onNewDir TextField.edits_moveLeft
  · exact h.onNewDir TextField.edits_moveRight
  · exact h.onNewDir TextField.edits_backspace
  · exact h.onNewDir TextField.edits_delete
  · exact h.onNewDir (TextField.edits_insertChar _)
  · exact h

theorem Sound.executeStoreFile (h : app.Sound) (seen : Surroundings) :
    (app.executeStoreFile seen).Sound := by
  unfold InputState.executeStoreFile
  split_ifs
  · exact h.toMode nofun
  · have hcleared : ({ app with storeKey := .empty } : InputState).Sound :=
      ⟨h.newDir, h.rename, h.mkdir, fun _ => TextField.onBoundary_empty⟩
    exact hcleared.beginUpload seen

theorem Sound.storeKeyKey (h : app.Sound) (hmode : app.inputMode = .storeKey) (code : KeyCode) :
    Safe (orPanic (app.storeKeyKey seen code)) := by
  have hstoring : app.inputMode.Storing := hmode ▸ trivial
  unfold InputState.storeKeyKey
  split
  · split_ifs
    · exact h.executeStoreFile seen
    · exact h
  · exact h.clearStoreKeyInput
  · exact h.toMode fun _ => hstoring
  · exact h.onStoreKey hstoring TextField.edits_moveLeft
  · exact h.onStoreKey hstoring TextField.edits_moveRight
  · exact h.onStoreKey hstoring TextField.edits_home
  · exact h.onStoreKey hstoring TextField.edits_toEnd
  · exact h.onStoreKey hstoring TextField.edits_backspace
  · exact h.onStoreKey hstoring TextField.edits_delete
  · exact h.onStoreKey hstoring (TextField.edits_insertChar _)
  · exact h

theorem Sound.stagePendingUpload (h : app.Sound) (hstoring : app.inputMode.Storing) (seen : Surroundings) :
    (app.stagePendingUpload seen).Sound := by
  unfold InputState.stagePendingUpload
  split_ifs
  · exact h.toMode fun _ => hstoring
  · exact h

theorem Sound.suggestKeyFromPath (h : app.Sound) (hstoring : app.inputMode.Storing)
    (fileName : Option String) : ((app.suggestKeyFromPath seen fileName).toMode .storeKey).Sound := by
  cases fileName with
  | none => exact h.toMode fun _ => hstoring
  | some name => exact ⟨h.newDir, h.rename, h.mkdir, fun _ => TextField.onBoundary_filled _⟩

theorem Sound.fileBrowserKey (h : app.Sound) (hmode : app.inputMode = .fileBrowser) (code : KeyCode) :
    (app.fileBrowserKey seen code).Sound := by
  have hstoring : app.inputMode.Storing := hmode ▸ trivial
  unfold InputState.fileBrowserKey
  split
  · exact h.clearStoreKeyInput
  · exact h.toMode fun _ => hstoring
  · split
    · exact h.suggestKeyFromPath hstoring _
    · exact h
  · split_ifs
    · exact h.toMode fun _ => hstoring
    · exact h
  · exact h.toMode fun _ => hstoring
  · split_ifs
    · exact h.stagePendingUpload hstoring seen
    · split
      · exact h.stagePendingUpload hstoring seen
      · exact h
  · exact h

theorem Sound.uploadConfirmKey (h : app.Sound) (hmode : app.inputMode = .uploadConfirm) (code : KeyCode) :
    (app.uploadConfirmKey seen code).Sound := by
  have hstoring : app.inputMode.Storing := hmode ▸ trivial
  have hconfirm : (app.confirmPendingUpload seen).Sound := by
    unfold InputState.confirmPendingUpload
    split_ifs
    · exact h.beginUpload seen
    · exact h.toMode nofun
  unfold InputState.uploadConfirmKey
  split
  · exact hconfirm
  · exact hconfirm
  · exact hconfirm
  · exact h.toMode fun _ => hstoring

theorem Sound.executeRename (h : app.Sound) (seen : Surroundings) : (app.executeRename seen).Sound := by
  unfold InputState.executeRename
  dsimp only
  split_ifs
  · exact h
  · exact h.toMode nofun
  · exact h.toMode nofun
  · exact ⟨h.newDir, TextField.onBoundary_empty, h.mkdir, nofun⟩

theorem Sound.renameKey (h : app.Sound) (code : KeyCode) :
    Safe (orPanic (app.renameKey seen code)) := by
  unfold InputState.renameKey
  split
  · exact h.executeRename seen
  · exact ⟨h.newDir, TextField.onBoundary_empty, h.mkdir, nofun⟩
  · exact h.onRename TextField.edits_moveLeft
  · exact h.onRename TextField.edits_moveRight
  · exact h.onRename TextField.edits_home
  · exact h.onRename TextField.edits_toEnd
  · exact h.onRename TextField.edits_backspace
  · exact h.onRename TextField.edits_delete
  · exact h.onRename (TextField.edits_insertChar _)
  · exact h

theorem Sound.executeMkdir (h : app.Sound) : app.executeMkdir.Sound := by
  unfold InputState.executeMkdir
  split_ifs
  · exact h.toMode nofun
  · exact ⟨h.newDir, h.rename, TextField.onBoundary_empty, nofun⟩

theorem Sound.mkdirKey (h : app.Sound) (code : KeyCode) : Safe (orPanic (app.mkdirKey code)) := by
  unfold InputState.mkdirKey
  split
  · exact h.executeMkdir
  · exact ⟨h.newDir, h.rename, TextField.onBoundary_empty, nofun⟩
  · exact h.onMkdir TextField.edits_moveLeft
  · exact h.onMkdir TextField.edits_moveRight
  · exact h.onMkdir TextField.edits_backspace
  · exact h.onMkdir TextField.edits_delete
  · exact h.onMkdir (TextField.edits_insertChar _)
  · exact h

theorem Sound.detailKey (h : app.Sound) (code : KeyCode) : (app.detailKey seen code).Sound := by
  unfold InputState.detailKey
  split
  · exact h.toMode nofun
  · exact h.toMode nofun
  · exact h.toMode nofun
  · exact h.enterDeleteConfirm seen
  · exact h.enterRenameMode seen
  · exact h

theorem Sound.uploadingKey (h : app.Sound) (control : Bool) (code : KeyCode) :
    Safe (app.uploadingKey control code) := by
  unfold InputState.uploadingKey
  split
  · split_ifs
    · rfl
    · exact h
  · exact h

/-! ## Runs -/

theorem Sound.onKey (h : app.Sound) (code : KeyCode) (control : Bool) :
    Safe (app.onKey seen code control) := by
  unfold InputState.onKey
  cases hmode : app.inputMode with
  | normal => exact h.normalKey control code
  | search =>
    show (app.searchKey code).Sound
    unfold InputState.searchKey
    split
    · exact h.toMode nofun
    · exact h.toMode nofun
    · exact h
  | pathBrowser => exact h.pathBrowserKey hmode code
  | newDirInput => exact h.newDirKey hmode code
  | storeKey => exact h.storeKeyKey hmode code
  | fileBrowser => exact h.fileBrowserKey hmode code
  | browserFilter =>
    have hstoring : app.inputMode.Storing := hmode ▸ trivial
    show (app.browserFilterKey code).Sound
    unfold InputState.browserFilterKey
    split
    · exact h.toMode fun _ => hstoring
    · exact h.toMode fun _ => hstoring
    · exact h.toMode fun _ => hstoring
    · exact h.toMode fun _ => hstoring
    · exact h
  | uploadConfirm => exact h.uploadConfirmKey hmode code
  | clearMarksConfirm =>
    have hstoring : app.inputMode.Storing := hmode ▸ trivial
    exact h.toMode fun _ => hstoring
  | renameInput => exact h.renameKey code
  | mkdirInput => exact h.mkdirKey code
  | deleteConfirm => exact h.toMode nofun
  | deleteDirConfirm => exact h.toMode nofun
  | detail => exact h.detailKey code
  | uploading => exact h.uploadingKey control code

theorem Sound.step (h : app.Sound) (seen : Surroundings) (event : TerminalEvent) :
    Safe (app.step seen event) := by
  cases event with
  | key code control =>
    have hkey : Safe (app.onKey seen code control) := h.onKey code control
    unfold InputState.step
    dsimp only
    cases hres : app.onKey seen code control with
    | error exit =>
      rw [hres] at hkey
      exact hkey
    | ok app' =>
      rw [hres] at hkey
      exact Sound.drainUploadEvents hkey seen
  | mouse down => exact h.drainUploadEvents seen
  | other => exact h.drainUploadEvents seen

theorem Sound.run (events : List (Surroundings × TerminalEvent)) : ∀ {app : InputState}, app.Sound →
    Safe (InputState.run events app) := by
  induction events with
  | nil => exact fun h => h
  | cons e events ih =>
    intro app h
    have hstep := h.step e.1 e.2
    unfold InputState.run
    cases hres : app.step e.1 e.2 with
    | error exit =>
      rw [hres] at hstep
      exact hstep
    | ok app' =>
      rw [hres] at hstep
      exact ih hstep

theorem Sound.current (h : app.Sound) : ∀ field ∈ app.current, field.OnBoundary := by
  intro field hfield
  unfold InputState.current at hfield
  cases hmode : app.inputMode with
  | storeKey =>
    have hstoring : app.inputMode.Storing := hmode ▸ trivial
    rw [hmode] at hfield
    exact Option.some.inj hfield ▸ h.storeKey hstoring
  | newDirInput =>
    rw [hmode] at hfield
    exact Option.some.inj hfield ▸ h.newDir
  | renameInput =>
    rw [hmode] at hfield
    exact Option.some.inj hfield ▸ h.rename
  | mkdirInput =>
    rw [hmode] at hfield
    exact Option.some.inj hfield ▸ h.mkdir
  | _ =>
    rw [hmode] at hfield
    cases hfield

end InputState

/-- No run of the main loop panics in an edit, and after every run the cursor of the current input is in
its text, at a boundary of characters. -/
theorem cursors_on_boundary (events : List (Surroundings × TerminalEvent)) :
    InputState.run events .new ≠ .error .panic ∧
    ∀ app, InputState.run events .new = .ok app → ∀ field ∈ app.current, field.OnBoundary := by
  have hsafe := InputState.sound_new.run events
  constructor
  · intro hpanic
    rw [hpanic] at hsafe
    cases hsafe
  · intro app hrun
    rw [hrun] at hsafe
    exact InputState.Sound.current hsafe

/-- An empty app, with nothing selected. -/
def Surroundings.quiet : Surroundings where
  browsePrefix := ""
  pathPrefix := ""
  browseEntry := none
  selectedItem := none
  browserEntry := none
  fileSelected := false
  marked := false
  pending := false
  connected := true
  itemsBelow := false
  finished := false

/-- A directory is named with a character of two bytes, and the cursor goes back before it. -/
def typedAccent : List (Surroundings × TerminalEvent) :=
  [.char 'M', .char 'é', .left].map fun code => (.quiet, .key code false)

theorem cursors_on_boundary_typedAccent :
    InputState.run typedAccent .new ≠ .error .panic ∧
    ∃ app, InputState.run typedAccent .new = .ok app ∧ app.current = some ⟨"é", 0⟩ ∧
      ∀ field ∈ app.current, field.OnBoundary := by
  have hrun : InputState.run typedAccent .new
      = .ok { InputState.new with inputMode := .mkdirInput, mkdir := ⟨"é", 0⟩ } := by
    rfl
  exact ⟨(cursors_on_boundary typedAccent).1, _, hrun, rfl, (cursors_on_boundary typedAccent).2 _ hrun⟩

end KaidaDB
