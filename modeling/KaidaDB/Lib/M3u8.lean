import Mathlib.Data.List.Basic

/-!
# Extended M3U playlists

`M3u8.read` reads a playlist line by line: tags with attribute lists, and URIs; other tags, comments and
blank lines are skipped. `written` puts the same on lines with all texts as they are.
**`read_written_iff`**: they are read back exactly if each is `Plain`. What is read is always plain
(`plain_of_mem_read`), and what is plain is read back (`run_attributesText`, `readLine_text`).
-/

namespace M3u8

/-- The end of a line, or half of one. -/
def isBreak (c : Char) : Bool := c = '\n' || c = '\r'

inductive Value where
  | quoted (s : List Char)
  /-- A number or another value without quotes. -/
  | bare (s : List Char)
deriving DecidableEq, Repr

abbrev Attribute := List Char × Value

inductive Line where
  /-- A tag with its attributes, if these can be read. -/
  | tag (name : List Char) (attributes : Option (List Attribute))
  | uri (s : List Char)
deriving DecidableEq, Repr

/-! ## Reading -/

/-- What has been read of an attribute list. -/
inductive Phase where
  | name (done : List Attribute) (name : List Char)
  /-- Behind a `=`. -/
  | value (done : List Attribute) (name : List Char)
  | quoted (done : List Attribute) (name : List Char) (s : List Char)
  /-- Behind a quoted string. -/
  | closed (done : List Attribute)
  | bare (done : List Attribute) (name : List Char) (s : List Char)

def isNameChar (c : Char) : Bool := c.isUpper || c.isDigit || c = '-'

def step : Phase → Char → Option Phase
  | .name done name, c =>
    if c = '=' then some (.value done name)
    else if isNameChar c then some (.name done (name ++ [c]))
    else none
  | .value done name, c =>
    if c = '"' then some (.quoted done name [])
    else if c = ',' || isBreak c then none
    else some (.bare done name [c])
  | .quoted done name s, c =>
    if c = '"' then some (.closed (done ++ [(name, .quoted s)]))
    else if isBreak c then none
    else some (.quoted done name (s ++ [c]))
  | .closed done, c => if c = ',' then some (.name done []) else none
  | .bare done name s, c =>
    if c = ',' then some (.name (done ++ [(name, .bare s)]) [])
    else if isBreak c then none
    else some (.bare done name (s ++ [c]))

def run : Phase → List Char → Option (List Attribute)
  | .closed done, [] => some done
  | .bare done name s, [] => some (done ++ [(name, .bare s)])
  | _, [] => none
  | phase, c :: l => (step phase c).bind fun next => run next l

/-- The attributes in an attribute list. -/
def readAttributes (l : List Char) : Option (List Attribute) := run (.name [] []) l

/-- What a line says, if it is not skipped. Of the tags with these names the attributes are read. -/
def readLine (names : List (List Char)) (l : List Char) : Option Line :=
  if l.takeWhile (· ≠ ':') ∈ names then
    some (.tag (l.takeWhile (· ≠ ':')) (readAttributes ((l.dropWhile (· ≠ ':')).drop 1)))
  else if l = [] ∨ l.head? = some '#' then none
  else some (.uri l)

def read (names : List (List Char)) (text : List Char) : List Line :=
  (text.splitOnP isBreak).filterMap (readLine names)

/-! ## What can be read -/

def Value.Plain : Value → Prop
  | .quoted s => ∀ c ∈ s, c ≠ '"' ∧ isBreak c = false
  | .bare s => s ≠ [] ∧ s.head? ≠ some '"' ∧ ∀ c ∈ s, c ≠ ',' ∧ isBreak c = false

def Line.Plain : Line → Prop
  | .tag _ attributes => ∀ as ∈ attributes, ∀ a ∈ as, a.2.Plain
  | .uri s => s ≠ [] ∧ s.head? ≠ some '#' ∧ ∀ c ∈ s, isBreak c = false

/-- The values that have been read are plain. -/
def Phase.Plain : Phase → Prop
  | .name done _ | .value done _ | .closed done => ∀ a ∈ done, a.2.Plain
  | .quoted done _ s => (∀ a ∈ done, a.2.Plain) ∧ (Value.quoted s).Plain
  | .bare done _ s => (∀ a ∈ done, a.2.Plain) ∧ (Value.bare s).Plain

theorem plain_snoc {done : List Attribute} (h : ∀ a ∈ done, a.2.Plain) {a : Attribute} (ha : a.2.Plain) :
    ∀ b ∈ done ++ [a], b.2.Plain := by
  intro b hb
  rcases List.mem_append.1 hb with hb | hb
  · exact h b hb
  · rw [List.mem_singleton.1 hb]
    exact ha

theorem plain_step {phase next : Phase} {c : Char} (h : phase.Plain) (hstep : step phase c = some next) :
    next.Plain := by
  cases phase with
  | name done name =>
    rw [step] at hstep
    split_ifs at hstep <;> cases hstep <;> exact h
  | value done name =>
    rw [step] at hstep
    split_ifs at hstep with hquote hbad
    · cases hstep
      exact ⟨h, fun _ hc => absurd hc List.not_mem_nil⟩
    · cases hstep
      simp only [Bool.or_eq_true, decide_eq_true_eq, not_or, Bool.not_eq_true] at hbad
      refine ⟨h, List.cons_ne_nil _ _, by simpa using hquote, fun d hd => ?_⟩
      rw [List.mem_singleton.1 hd]
      exact hbad
  | quoted done name s =>
    obtain ⟨hdone, hs⟩ := h
    rw [step] at hstep
    split_ifs at hstep with hquote hbreak
    · cases hstep
      exact plain_snoc hdone hs
    · cases hstep
      refine ⟨hdone, fun d hd => ?_⟩
      rcases List.mem_append.1 hd with hd | hd
      · exact hs d hd
      · rw [List.mem_singleton.1 hd]
        exact ⟨hquote, Bool.eq_false_iff.2 hbreak⟩
  | closed done =>
    rw [step] at hstep
    split_ifs at hstep
    cases hstep
    exact h
  | bare done name s =>
    obtain ⟨hdone, hne, hhead, hs⟩ := h
    rw [step] at hstep
    split_ifs at hstep with hcomma hbreak
    · cases hstep
      exact plain_snoc hdone ⟨hne, hhead, hs⟩
    · cases hstep
      refine ⟨hdone, by simp, ?_, fun d hd => ?_⟩
      · rw [List.head?_append_of_ne_nil _ hne]
        exact hhead
      · rcases List.mem_append.1 hd with hd | hd
        · exact hs d hd
        · rw [List.mem_singleton.1 hd]
          exact ⟨hcomma, Bool.eq_false_iff.2 hbreak⟩

theorem plain_run {l : List Char} : ∀ {phase : Phase} {attributes : List Attribute}, phase.Plain →
    run phase l = some attributes → ∀ a ∈ attributes, a.2.Plain := by
  induction l with
  | nil =>
    intro phase attributes h hrun
    cases phase with
    | closed done =>
      cases hrun
      exact h
    | bare done name s =>
      cases hrun
      exact plain_snoc h.1 h.2
    | _ => cases hrun
  | cons c l ih =>
    intro phase attributes h hrun
    have hcons : run phase (c :: l) = (step phase c).bind fun next => run next l := by
      cases phase <;> rfl
    rw [hcons, Option.bind_eq_some_iff] at hrun
    obtain ⟨next, hnext, hrun⟩ := hrun
    exact ih (plain_step h hnext) hrun

/-- The line that is being read, backwards, and all later ones are without line ends. -/
theorem not_break_of_mem_lines : ∀ {text current l : List Char}, (∀ c ∈ current, isBreak c = false) →
    l ∈ text.splitOnPPrepend isBreak current → ∀ c ∈ l, isBreak c = false
  | [], current, l, h, hl => by
    rw [List.splitOnPPrepend_nil, List.mem_singleton] at hl
    simpa [hl] using h
  | d :: text, current, l, h, hl => by
    cases hd : isBreak d with
    | true =>
      rw [List.splitOnPPrepend_cons_pos hd, List.mem_cons] at hl
      exact hl.elim (fun heq => by simpa [heq] using h) (not_break_of_mem_lines nofun)
    | false =>
      rw [List.splitOnPPrepend_cons_neg hd] at hl
      exact not_break_of_mem_lines (List.forall_mem_cons.2 ⟨hd, h⟩) hl

/-- **All that is read is plain.** -/
theorem plain_of_mem_read {names : List (List Char)} {text : List Char} {line : Line}
    (h : line ∈ read names text) : line.Plain := by
  obtain ⟨l, hl, hline⟩ := List.mem_filterMap.1 h
  rw [readLine] at hline
  split_ifs at hline with hname hskip
  · cases hline
    intro as has a ha
    have hstart : (Phase.name [] []).Plain := fun _ hb => absurd hb List.not_mem_nil
    exact plain_run hstart has a ha
  · cases hline
    rw [not_or] at hskip
    exact ⟨hskip.1, hskip.2, @not_break_of_mem_lines text [] _ nofun hl⟩

/-! ## Writing -/

def Value.text : Value → List Char
  | quoted s => '"' :: (s ++ ['"'])
  | bare s => s

def attributeText (a : Attribute) : List Char := a.1 ++ '=' :: a.2.text

/-- An attribute list with its values as they are. -/
def attributesText : List Attribute → List Char
  | [] => []
  | [a] => attributeText a
  | a :: as => attributeText a ++ ',' :: attributesText as

inductive Item where
  | tag (name : List Char) (attributes : List Attribute)
  | uri (s : List Char)
  /-- A line that is skipped. -/
  | other (s : List Char)
deriving DecidableEq, Repr

namespace Item

def text : Item → List Char
  | tag name attributes => name ++ ':' :: attributesText attributes
  | uri s | other s => s

def line? : Item → Option Line
  | tag name attributes => some (.tag name (some attributes))
  | uri s => some (.uri s)
  | other _ => none

def Plain : Item → Prop
  | tag _ attributes => ∀ a ∈ attributes, a.2.Plain
  | uri s => (Line.uri s).Plain
  | other _ => True

/-- All but the values and URIs is as it has to be. -/
def Fits (names : List (List Char)) : Item → Prop
  | tag name attributes => name ∈ names ∧ (∀ c ∈ name, c ≠ ':' ∧ isBreak c = false) ∧ attributes ≠ [] ∧
      ∀ a ∈ attributes, ∀ c ∈ a.1, isNameChar c = true
  | uri _ => True
  | other s => readLine names s = none ∧ ∀ c ∈ s, isBreak c = false

end Item

def written (items : List Item) : List Char := items.flatMap fun item => item.text ++ ['\n']

/-! ## What is plain is read back -/

theorem run_cons (phase : Phase) (c : Char) (l : List Char) :
    run phase (c :: l) = (step phase c).bind fun next => run next l := by
  cases phase <;> rfl

theorem run_name {done : List Attribute} (l : List Char) : ∀ {b a : List Char},
    (∀ c ∈ b, isNameChar c = true) →
    run (.name done a) (b ++ '=' :: l) = run (.value done (a ++ b)) l
  | [], a, _ => by
    rw [List.append_nil]
    rfl
  | c :: b, a, h => by
    have hc : isNameChar c = true := h c List.mem_cons_self
    have hne : c ≠ '=' := by
      rintro rfl
      exact absurd hc (by decide)
    rw [List.cons_append, run_cons, step, if_neg hne, if_pos hc, Option.bind_some,
      run_name l fun d hd => h d (List.mem_cons_of_mem c hd), List.append_assoc]
    rfl

theorem run_quoted {done : List Attribute} {name : List Char} (l : List Char) : ∀ {s a : List Char},
    (Value.quoted s).Plain →
    run (.quoted done name a) (s ++ '"' :: l) = run (.closed (done ++ [(name, .quoted (a ++ s))])) l
  | [], a, _ => by
    rw [List.append_nil]
    rfl
  | c :: s, a, h => by
    obtain ⟨⟨hquote, hbreak⟩, hs⟩ := List.forall_mem_cons.1 h
    rw [List.cons_append, run_cons, step, if_neg hquote, if_neg (by simp [hbreak]), Option.bind_some,
      run_quoted l hs, List.append_assoc]
    rfl

theorem run_bare {done : List Attribute} {name : List Char} (l : List Char) : ∀ {s a : List Char},
    (∀ c ∈ s, c ≠ ',' ∧ isBreak c = false) →
    run (.bare done name a) (s ++ l) = run (.bare done name (a ++ s)) l
  | [], a, _ => by rw [List.append_nil, List.nil_append]
  | c :: s, a, h => by
    obtain ⟨⟨hcomma, hbreak⟩, hs⟩ := List.forall_mem_cons.1 h
    rw [List.cons_append, run_cons, step, if_neg hcomma, if_neg (by simp [hbreak]), Option.bind_some,
      run_bare l hs, List.append_assoc]
    rfl

/-- Behind a value, the list may end or go on. -/
theorem run_value {done : List Attribute} {name : List Char} {v : Value} (h : v.Plain) :
    ∃ phase, (∀ l, run (.value done name) (v.text ++ l) = run phase l) ∧
      run phase [] = some (done ++ [(name, v)]) ∧
      ∀ l, run phase (',' :: l) = run (.name (done ++ [(name, v)]) []) l := by
  cases v with
  | quoted s =>
    refine ⟨.closed (done ++ [(name, .quoted s)]), fun l => ?_, rfl, fun l => rfl⟩
    have htext : (Value.quoted s).text ++ l = '"' :: (s ++ '"' :: l) := by simp [Value.text]
    rw [htext, run_cons]
    exact run_quoted l h
  | bare s =>
    refine ⟨.bare done name s, fun l => ?_, rfl, fun l => rfl⟩
    obtain ⟨hne, hhead, hs⟩ := h
    obtain ⟨c, s, rfl⟩ := List.exists_cons_of_ne_nil hne
    obtain ⟨⟨hcomma, hbreak⟩, hs⟩ := List.forall_mem_cons.1 hs
    have hquote : c ≠ '"' := by simpa using hhead
    have hstep : step (.value done name) c = some (.bare done name [c]) := by
      rw [step, if_neg hquote, if_neg (by simp [hcomma, hbreak])]
    rw [Value.text, List.cons_append, run_cons, hstep, Option.bind_some]
    exact run_bare l hs

theorem run_attributesText : ∀ {attributes done : List Attribute}, attributes ≠ [] →
    (∀ a ∈ attributes, ∀ c ∈ a.1, isNameChar c = true) → (∀ a ∈ attributes, a.2.Plain) →
    run (.name done []) (attributesText attributes) = some (done ++ attributes)
  | [], _, hne, _, _ => absurd rfl hne
  | [(name, v)], done, _, hnames, hplain => by
    obtain ⟨phase, hvalue, hend, -⟩ := @run_value done name v (hplain _ List.mem_cons_self)
    have hread := hvalue []
    rw [List.append_nil] at hread
    rw [attributesText, attributeText, run_name _ (hnames _ List.mem_cons_self), List.nil_append, hread,
      hend]
  | (name, v) :: a :: as, done, _, hnames, hplain => by
    obtain ⟨phase, hvalue, -, hmore⟩ := @run_value done name v (hplain _ List.mem_cons_self)
    have htext : attributesText ((name, v) :: a :: as)
        = name ++ '=' :: (v.text ++ ',' :: attributesText (a :: as)) := by
      simp [attributesText, attributeText]
    rw [htext, run_name _ (hnames _ List.mem_cons_self), List.nil_append, hvalue, hmore,
      run_attributesText (List.cons_ne_nil a as) (fun b hb => hnames b (List.mem_cons_of_mem _ hb))
        fun b hb => hplain b (List.mem_cons_of_mem _ hb), List.append_assoc]
    rfl

theorem readLine_tag {names : List (List Char)} {name : List Char} {attributes : List Attribute}
    (h : (Item.tag name attributes).Fits names) (hplain : ∀ a ∈ attributes, a.2.Plain) :
    readLine names (name ++ ':' :: attributesText attributes) = some (.tag name (some attributes)) := by
  obtain ⟨hname, hcolon, hne, hattributes⟩ := h
  have htake : (name ++ ':' :: attributesText attributes).takeWhile (· ≠ ':') = name := by
    rw [List.takeWhile_append_of_pos fun c hc => by simpa using (hcolon c hc).1]
    simp
  have hdrop : (name ++ ':' :: attributesText attributes).dropWhile (· ≠ ':')
      = ':' :: attributesText attributes := by
    rw [List.dropWhile_append_of_pos fun c hc => by simpa using (hcolon c hc).1]
    simp
  rw [readLine, htake, if_pos hname, hdrop]
  exact congrArg (fun as => some (Line.tag name as)) (run_attributesText hne hattributes hplain)

theorem readLine_uri {names : List (List Char)} (hnames : ∀ name ∈ names, name.head? = some '#')
    {s : List Char} (h : (Line.uri s).Plain) : readLine names s = some (.uri s) := by
  obtain ⟨hne, hhead, -⟩ := h
  have hname : s.takeWhile (· ≠ ':') ∉ names := by
    intro hmem
    have hstart := hnames _ hmem
    obtain ⟨c, s, rfl⟩ := List.exists_cons_of_ne_nil hne
    by_cases hc : c = ':' <;> simp [hc] at hstart
    exact hhead (by simpa using hstart)
  rw [readLine, if_neg hname, if_neg (not_or.2 ⟨hne, hhead⟩)]

theorem readLine_text {names : List (List Char)} (hnames : ∀ name ∈ names, name.head? = some '#')
    {item : Item} (h : item.Fits names) (hplain : item.Plain) : readLine names item.text = item.line? := by
  cases item with
  | tag name attributes => exact readLine_tag h hplain
  | uri s => exact readLine_uri hnames hplain
  | other s => exact h.1

/-! ## Lines that are plain have no line ends -/

theorem Value.Plain.unbroken {v : Value} (h : v.Plain) : ∀ c ∈ v.text, isBreak c = false := by
  cases v with
  | quoted s =>
    intro c hc
    simp only [Value.text, List.mem_cons, List.mem_append, List.not_mem_nil, or_false] at hc
    rcases hc with rfl | hc | rfl
    · rfl
    · exact (h c hc).2
    · rfl
  | bare s => exact fun c hc => (h.2.2 c hc).2

theorem not_break_of_isNameChar {c : Char} (h : isNameChar c = true) : isBreak c = false := by
  rw [Bool.eq_false_iff]
  intro hbreak
  simp only [isBreak, Bool.or_eq_true, decide_eq_true_eq] at hbreak
  rcases hbreak with rfl | rfl <;> exact absurd h (by decide)

theorem unbroken_attributesText : ∀ {attributes : List Attribute},
    (∀ a ∈ attributes, ∀ c ∈ a.1, isNameChar c = true) → (∀ a ∈ attributes, a.2.Plain) →
    ∀ c ∈ attributesText attributes, isBreak c = false
  | [], _, _, c, hc => absurd hc List.not_mem_nil
  | a :: as, hnames, hplain, c, hc => by
    have hfirst : ∀ d ∈ attributeText a, isBreak d = false := by
      intro d hd
      rcases List.mem_append.1 hd with hd | hd
      · exact not_break_of_isNameChar (hnames a List.mem_cons_self d hd)
      · rcases List.mem_cons.1 hd with rfl | hd
        · rfl
        · exact (hplain a List.mem_cons_self).unbroken d hd
    cases as with
    | nil => exact hfirst c hc
    | cons b as =>
      rcases List.mem_append.1 hc with hc | hc
      · exact hfirst c hc
      · rcases List.mem_cons.1 hc with rfl | hc
        · rfl
        · exact unbroken_attributesText (fun b hb => hnames b (List.mem_cons_of_mem _ hb))
            (fun b hb => hplain b (List.mem_cons_of_mem _ hb)) c hc

theorem unbroken_text {names : List (List Char)} {item : Item} (h : item.Fits names)
    (hplain : item.Plain) : ∀ c ∈ item.text, isBreak c = false := by
  cases item with
  | tag name attributes =>
    obtain ⟨-, hcolon, -, hattributes⟩ := h
    intro c hc
    rcases List.mem_append.1 hc with hc | hc
    · exact (hcolon c hc).2
    · rcases List.mem_cons.1 hc with rfl | hc
      · rfl
      · exact unbroken_attributesText hattributes hplain c hc
  | uri s => exact hplain.2.2
  | other s => exact h.2

theorem splitOnP_written : ∀ {items : List Item}, (∀ item ∈ items, ∀ c ∈ item.text, isBreak c = false) →
    (written items).splitOnP isBreak = items.map Item.text ++ [[]]
  | [], _ => List.splitOnP_nil
  | item :: items, h => by
    have htext : written (item :: items) = item.text ++ '\n' :: written items := by simp [written]
    rw [htext, List.splitOnP_append_cons_of_forall_mem (h item List.mem_cons_self) '\n' rfl,
      splitOnP_written fun i hi => h i (List.mem_cons_of_mem _ hi)]
    rfl

/-- **What is written is read back** exactly if it is plain. -/
theorem read_written_iff {names : List (List Char)} (hnames : ∀ name ∈ names, name.head? = some '#')
    {items : List Item} (hfits : ∀ item ∈ items, item.Fits names) :
    read names (written items) = items.filterMap Item.line? ↔ ∀ item ∈ items, item.Plain := by
  constructor
  · intro h item hitem
    have hread : ∀ line, item.line? = some line → line.Plain := fun line hline =>
      plain_of_mem_read (h ▸ List.mem_filterMap.2 ⟨item, hitem, hline⟩)
    cases item with
    | tag name attributes => exact hread _ rfl attributes rfl
    | uri s => exact hread _ rfl
    | other s => trivial
  · intro hplain
    rw [read, splitOnP_written fun item hitem => unbroken_text (hfits item hitem) (hplain item hitem),
      List.filterMap_append, List.filterMap_map]
    have hlast : [([] : List Char)].filterMap (readLine names) = [] := by
      have hempty : ([] : List Char) ∉ names := fun hmem => by simpa using hnames _ hmem
      simp [readLine, hempty]
    rw [hlast, List.append_nil]
    exact List.filterMap_congr fun item hitem =>
      readLine_text hnames (hfits item hitem) (hplain item hitem)

end M3u8
