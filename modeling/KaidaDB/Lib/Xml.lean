import KaidaDB.Lib.Percent

/-!
# XML documents of elements

`Xml.read` reads a text as a document of elements with attributes, given by its start and end tags in
order, with the values of attributes as they are after normalization. A reader goes through the text
character by character (`step`). Comments, processing instructions, document types and text between tags
are not read.

`written` puts tags on lines and the values of their attributes between quotes as they are.
**`read_written_iff`**: such a document is read back exactly if all of these values are `Plain`. A value
with a quote would end too early, and then what is read is shorter than it (`length_decode_le`).
-/

namespace Xml

/-! ## Characters -/

/-- `Char`: what a document may have in it at all. -/
def isXmlChar (c : Char) : Bool :=
  c = '\t' || c = '\n' || c = '\r' || (0x20 ≤ c.toNat && c.toNat ≠ 0xFFFE && c.toNat ≠ 0xFFFF)

/-- White space. -/
def isBlank (c : Char) : Bool := c = ' ' || c = '\t' || c = '\n' || c = '\r'

/-- `NameStartChar`, besides letters of ASCII. -/
def nameStarts : List (Nat × Nat) :=
  [(0xC0, 0xD6), (0xD8, 0xF6), (0xF8, 0x2FF), (0x370, 0x37D), (0x37F, 0x1FFF), (0x200C, 0x200D),
    (0x2070, 0x218F), (0x2C00, 0x2FEF), (0x3001, 0xD7FF), (0xF900, 0xFDCF), (0xFDF0, 0xFFFD),
    (0x10000, 0xEFFFF)]

def isNameStart (c : Char) : Bool :=
  c = ':' || c = '_' || c.isAlpha || nameStarts.any fun r => r.1 ≤ c.toNat && c.toNat ≤ r.2

/-- `NameChar`. -/
def isNameChar (c : Char) : Bool :=
  isNameStart c || c = '-' || c = '.' || c.isDigit || c.toNat = 0xB7 ||
    (0x300 ≤ c.toNat && c.toNat ≤ 0x36F) || (0x203F ≤ c.toNat && c.toNat ≤ 0x2040)

def IsName : List Char → Prop
  | [] => False
  | c :: l => isNameStart c = true ∧ ∀ d ∈ l, isNameChar d = true

instance : DecidablePred IsName
  | [] => .isFalse id
  | c :: l => inferInstanceAs (Decidable (isNameStart c = true ∧ ∀ d ∈ l, isNameChar d = true))

/-! ## Values -/

/-- The number with these digits. -/
def number (base : Nat) (digits : List Char) : Option Nat :=
  if digits = [] then none
  else digits.foldlM (fun n c => ((Percent.hexDigit? c).filter (· < base)).map (base * n + ·)) 0

/-- The character with this number. -/
def charOf (n : Nat) : Option Char :=
  if n.isValidChar ∧ isXmlChar (Char.ofNat n) = true then some (Char.ofNat n) else none

def entities : List (List Char × Char) :=
  [("amp".toList, '&'), ("lt".toList, '<'), ("gt".toList, '>'), ("quot".toList, '"'),
    ("apos".toList, '\'')]

/-- The character that a reference stands for. -/
def reference : List Char → Option Char
  | '#' :: 'x' :: digits => (number 16 digits).bind charOf
  | '#' :: digits => (number 10 digits).bind charOf
  | name => entities.lookup name

/-- The value of an attribute, with what has been read of a reference. -/
def decodeFrom : Option (List Char) → List Char → Option (List Char)
  | none, [] => some []
  | some _, [] => none
  | some name, c :: l =>
    if c = ';' then
      match reference name with
      | some d => (decodeFrom none l).map (d :: ·)
      | none => none
    else decodeFrom (some (name ++ [c])) l
  | none, c :: l =>
    if c = '&' then decodeFrom (some []) l
    else if c = '<' || !isXmlChar c then none
    -- line ends of two characters are one
    else if c = '\r' && l.head? = some '\n' then decodeFrom none l
    else (decodeFrom none l).map ((if isBlank c then ' ' else c) :: ·)

/-- The normalized value of an attribute. -/
def decode (raw : List Char) : Option (List Char) := decodeFrom none raw

/-- The value stands for itself between quotes. -/
def Plain (v : List Char) : Prop :=
  ∀ c ∈ v, isXmlChar c = true ∧ c ≠ '"' ∧ c ≠ '<' ∧ c ≠ '&' ∧ (isBlank c = true → c = ' ')

theorem length_decodeFrom_le : ∀ (l : List Char) (pending : Option (List Char)) {v : List Char},
    decodeFrom pending l = some v → v.length ≤ l.length
  | [], none, v, h => by
    cases h
    exact Nat.le_refl 0
  | [], some _, v, h => by cases h
  | c :: l, some name, v, h => by
    rw [decodeFrom] at h
    split_ifs at h
    · cases hname : reference name with
      | none =>
        rw [hname] at h
        cases h
      | some d =>
        rw [hname] at h
        obtain ⟨w, hw, rfl⟩ := Option.map_eq_some_iff.1 h
        exact Nat.succ_le_succ (length_decodeFrom_le l none hw)
    · exact Nat.le_succ_of_le (length_decodeFrom_le l _ h)
  | c :: l, none, v, h => by
    rw [decodeFrom] at h
    split_ifs at h
    · exact Nat.le_succ_of_le (length_decodeFrom_le l _ h)
    · exact Nat.le_succ_of_le (length_decodeFrom_le l _ h)
    · obtain ⟨w, hw, rfl⟩ := Option.map_eq_some_iff.1 h
      exact Nat.succ_le_succ (length_decodeFrom_le l none hw)
    · obtain ⟨w, hw, rfl⟩ := Option.map_eq_some_iff.1 h
      exact Nat.succ_le_succ (length_decodeFrom_le l none hw)

theorem length_decode_le {raw v : List Char} (h : decode raw = some v) : v.length ≤ raw.length :=
  length_decodeFrom_le raw none h

theorem plain_nil : Plain [] := fun _ h => absurd h List.not_mem_nil

theorem plain_append {v w : List Char} : Plain (v ++ w) ↔ Plain v ∧ Plain w := List.forall_mem_append

/-- **The values that are read as they are**: a reference is longer than what it stands for, and other
white space than blanks is replaced. -/
theorem decode_self_iff {v : List Char} (hq : '"' ∉ v) : decode v = some v ↔ Plain v := by
  induction v with
  | nil => exact iff_of_true rfl plain_nil
  | cons c l ih =>
    rw [List.mem_cons, not_or] at hq
    have hplain : Plain (c :: l) ↔
        (isXmlChar c = true ∧ c ≠ '"' ∧ c ≠ '<' ∧ c ≠ '&' ∧ (isBlank c = true → c = ' ')) ∧ Plain l :=
      List.forall_mem_cons
    rw [hplain, ← ih hq.2, decode, decodeFrom]
    by_cases hamp : c = '&'
    · rw [if_pos hamp]
      refine iff_of_false (fun h => ?_) (fun h => h.1.2.2.2.1 hamp)
      exact absurd (length_decodeFrom_le l _ h) (by simp)
    rw [if_neg hamp]
    by_cases hbad : (c = '<' || !isXmlChar c) = true
    · rw [if_pos hbad]
      refine iff_of_false (fun h => by cases h) fun h => ?_
      simp [h.1.1, h.1.2.2.1] at hbad
    rw [if_neg hbad]
    simp only [Bool.or_eq_true, decide_eq_true_eq, Bool.not_eq_true', not_or, Bool.not_eq_false] at hbad
    by_cases hcrlf : (c = '\r' && l.head? = some '\n') = true
    · rw [if_pos hcrlf]
      simp only [Bool.and_eq_true, decide_eq_true_eq] at hcrlf
      refine iff_of_false (fun h => ?_) fun h => ?_
      · exact absurd (length_decodeFrom_le l _ h) (by simp)
      · have := h.1.2.2.2.2 (by rw [hcrlf.1]; rfl)
        rw [hcrlf.1] at this
        cases this
    rw [if_neg hcrlf, Option.map_eq_some_iff]
    constructor
    · rintro ⟨w, hw, heq⟩
      obtain ⟨hc, rfl⟩ := List.cons.inj heq
      refine ⟨⟨hbad.2, Ne.symm hq.1, hbad.1, hamp, fun hblank => ?_⟩, hw⟩
      rw [if_pos hblank] at hc
      exact hc.symm
    · rintro ⟨⟨-, -, -, -, hblank⟩, hl⟩
      refine ⟨l, hl, ?_⟩
      split_ifs with h
      · rw [hblank h]
      · rfl

/-! ## Reading -/

abbrev Attribute := List Char × List Char

/-- A start tag or an end tag; an empty-element tag is both. -/
inductive Event where
  | start (name : List Char) (attributes : List Attribute)
  | stop (name : List Char)
deriving DecidableEq, Repr

/-- What has been read of a tag. -/
inductive Phase where
  | content
  /-- Behind a `<`. -/
  | opened
  | startName (name : List Char)
  /-- Behind the name or a value. -/
  | tag (name : List Char) (attributes : List Attribute)
  /-- Behind white space. -/
  | spaced (name : List Char) (attributes : List Attribute)
  | attrName (name : List Char) (attributes : List Attribute) (attr : List Char)
  /-- Behind the name of an attribute and white space. -/
  | named (name : List Char) (attributes : List Attribute) (attr : List Char)
  /-- Behind a `=`. -/
  | equal (name : List Char) (attributes : List Attribute) (attr : List Char)
  | quoted (name : List Char) (attributes : List Attribute) (attr : List Char) (quote : Char)
      (raw : List Char)
  /-- Behind the `/` of an empty-element tag. -/
  | emptyTag (name : List Char) (attributes : List Attribute)
  /-- Behind a `</`. -/
  | closing
  | stopName (name : List Char)
  /-- Behind the name of an end tag and white space. -/
  | stopped (name : List Char)

inductive Step where
  | fails
  | goes (phase : Phase)
  /-- The tag ends. -/
  | emits (events : List Event)

/-- A character that may end a start tag. -/
def tagStep (name : List Char) (attributes : List Attribute) (c : Char) : Step :=
  if c = '>' then .emits [.start name attributes]
  else if c = '/' then .goes (.emptyTag name attributes)
  else if isBlank c then .goes (.spaced name attributes)
  else .fails

def namedStep (name : List Char) (attributes : List Attribute) (attr : List Char) (c : Char) : Step :=
  if c = '=' then .goes (.equal name attributes attr)
  else if isBlank c then .goes (.named name attributes attr)
  else .fails

def stoppedStep (name : List Char) (c : Char) : Step :=
  if c = '>' then .emits [.stop name]
  else if isBlank c then .goes (.stopped name)
  else .fails

def step : Phase → Char → Step
  | .content, c =>
    if c = '<' then .goes .opened else if isBlank c then .goes .content else .fails
  | .opened, c =>
    if c = '/' then .goes .closing else if isNameStart c then .goes (.startName [c]) else .fails
  | .startName name, c =>
    if isNameChar c then .goes (.startName (name ++ [c])) else tagStep name [] c
  | .tag name attributes, c => tagStep name attributes c
  | .spaced name attributes, c =>
    if isNameStart c then .goes (.attrName name attributes [c]) else tagStep name attributes c
  | .attrName name attributes attr, c =>
    if isNameChar c then .goes (.attrName name attributes (attr ++ [c]))
    else namedStep name attributes attr c
  | .named name attributes attr, c => namedStep name attributes attr c
  | .equal name attributes attr, c =>
    if c = '"' || c = '\'' then .goes (.quoted name attributes attr c [])
    else if isBlank c then .goes (.equal name attributes attr)
    else .fails
  | .quoted name attributes attr quote raw, c =>
    if c = quote then
      match decode raw with
      | some v => .goes (.tag name (attributes ++ [(attr, v)]))
      | none => .fails
    else .goes (.quoted name attributes attr quote (raw ++ [c]))
  | .emptyTag name attributes, c =>
    if c = '>' then .emits [.start name attributes, .stop name] else .fails
  | .closing, c => if isNameStart c then .goes (.stopName [c]) else .fails
  | .stopName name, c =>
    if isNameChar c then .goes (.stopName (name ++ [c])) else stoppedStep name c
  | .stopped name, c => stoppedStep name c

/-- The tags in a text, which ends between tags. -/
def run : Phase → List Char → Option (List Event)
  | .content, [] => some []
  | _, [] => none
  | phase, c :: l =>
    match step phase c with
    | .fails => none
    | .goes next => run next l
    | .emits events => (run .content l).map (events ++ ·)

/-- Each end tag is that of the element that was opened last, and there is one outermost element. -/
def nested : List (List Char) → List Event → Bool
  | stack, [] => stack = []
  | stack, .start name _ :: events => nested (name :: stack) events
  | [], .stop _ :: _ => false
  | name :: stack, .stop name' :: events =>
    name = name' && (stack ≠ [] || events = []) && nested stack events

/-- Elements inside of another one. -/
def Balanced (events : List Event) : Prop :=
  ∀ (name : List Char) (stack : List (List Char)) (later : List Event),
    nested (name :: stack) (events ++ later) = nested (name :: stack) later

/-- No attribute is given twice. -/
def Event.distinct : Event → Bool
  | .start _ attributes => (attributes.map Prod.fst).Nodup
  | .stop _ => true

def wellFormed (events : List Event) : Bool :=
  events ≠ [] && nested [] events && events.all Event.distinct

/-- Behind an XML declaration. -/
def afterDeclaration : List Char → Option (List Char)
  | '?' :: '>' :: l => some l
  | _ :: l => afterDeclaration l
  | [] => none

/-- What is behind the declaration, if there is one. -/
def body (text : List Char) : Option (List Char) :=
  match text.dropPrefix? "<?xml ".toList with
  | some l => afterDeclaration l
  | none => some text

/-- The tags of a document. -/
def read (text : List Char) : Option (List Event) :=
  (body text).bind fun l => (run .content l).filter wellFormed

/-! ## Elements -/

theorem balanced_nil : Balanced [] := fun _ _ _ => rfl

theorem balanced_append {events later : List Event} (h : Balanced events) (h' : Balanced later) :
    Balanced (events ++ later) := fun name stack more => by
  rw [List.append_assoc, h, h']

theorem balanced_flatMap {α : Type} {f : α → List Event} {l : List α} (h : ∀ a ∈ l, Balanced (f a)) :
    Balanced (l.flatMap f) := by
  induction l with
  | nil => exact balanced_nil
  | cons a l ih =>
    exact balanced_append (h a List.mem_cons_self) (ih fun b hb => h b (List.mem_cons_of_mem a hb))

theorem balanced_element {name : List Char} {attributes : List Attribute} {events : List Event}
    (h : Balanced events) : Balanced (.start name attributes :: (events ++ [.stop name])) := by
  intro outer stack later
  rw [List.cons_append, nested, List.append_assoc, h]
  simp [nested]

/-- A document of one element. -/
theorem nested_element {name : List Char} {attributes : List Attribute} {events : List Event}
    (h : Balanced events) : nested [] (.start name attributes :: (events ++ [.stop name])) = true := by
  rw [nested, h]
  simp [nested]

/-! ## Inside of a start tag -/

theorem run_goes {phase next : Phase} {c : Char} (h : step phase c = .goes next) (l : List Char) :
    run phase (c :: l) = run next l := by
  cases phase <;> simp only [run, h]

theorem run_emits {phase : Phase} {events : List Event} {c : Char} (h : step phase c = .emits events)
    (l : List Char) : run phase (c :: l) = (run .content l).map (events ++ ·) := by
  cases phase <;> simp only [run, h]

theorem run_fails {phase : Phase} {c : Char} (h : step phase c = .fails) (l : List Char) :
    run phase (c :: l) = none := by
  cases phase <;> simp only [run, h]

/-- The name and the attributes that a start tag has so far. -/
def Phase.inside : Phase → Option (List Char × List Attribute)
  | tag name attributes | spaced name attributes | attrName name attributes _
  | named name attributes _ | equal name attributes _ | quoted name attributes _ _ _
  | emptyTag name attributes => some (name, attributes)
  | _ => none

section
variable {phase next : Phase} {name : List Char} {attributes : List Attribute} {c : Char}
  {events : List Event}

/-- A start tag only gains attributes. -/
theorem inside_goes (h : phase.inside = some (name, attributes)) (hstep : step phase c = .goes next) :
    ∃ more, next.inside = some (name, attributes ++ more) := by
  cases phase <;> cases h
  case quoted attr quote raw =>
    simp only [step] at hstep
    split_ifs at hstep
    · cases hvalue : decode raw with
      | none => simp [hvalue] at hstep
      | some v =>
        simp only [hvalue, Step.goes.injEq] at hstep
        exact ⟨[(attr, v)], hstep ▸ rfl⟩
    · simp only [Step.goes.injEq] at hstep
      exact ⟨[], by rw [← hstep, List.append_nil]; rfl⟩
  all_goals
    simp only [step, tagStep, namedStep] at hstep
    split_ifs at hstep
    all_goals
      simp only [Step.goes.injEq] at hstep
      try exact ⟨[], by rw [← hstep, List.append_nil]; rfl⟩

/-- A start tag ends with the attributes that it has. -/
theorem inside_emits (h : phase.inside = some (name, attributes)) (hstep : step phase c = .emits events) :
    ∃ more, events = .start name attributes :: more := by
  cases phase <;> cases h
  case quoted attr quote raw =>
    simp only [step] at hstep
    split_ifs at hstep
    cases hvalue : decode raw <;> simp [hvalue] at hstep
  all_goals
    simp only [step, tagStep, namedStep] at hstep
    split_ifs at hstep
    all_goals
      simp only [Step.emits.injEq] at hstep
      try exact ⟨_, hstep.symm⟩

end

/-- **What has been read of a start tag stays.** -/
theorem run_inside {l : List Char} : ∀ {phase : Phase} {name : List Char} {attributes : List Attribute}
    {events : List Event}, phase.inside = some (name, attributes) → run phase l = some events →
    ∃ more later, events = .start name (attributes ++ more) :: later := by
  induction l with
  | nil =>
    intro phase name attributes events h hrun
    cases phase <;> simp_all [Phase.inside, run]
  | cons c l ih =>
    intro phase name attributes events h hrun
    cases hstep : step phase c with
    | fails =>
      rw [run_fails hstep] at hrun
      cases hrun
    | goes next =>
      rw [run_goes hstep] at hrun
      obtain ⟨more, hnext⟩ := inside_goes h hstep
      obtain ⟨more', later, rfl⟩ := ih hnext hrun
      exact ⟨more ++ more', later, by rw [List.append_assoc]⟩
    | emits emitted =>
      rw [run_emits hstep] at hrun
      obtain ⟨more, rfl⟩ := inside_emits h hstep
      obtain ⟨rest, -, rfl⟩ := Option.map_eq_some_iff.1 hrun
      exact ⟨[], more ++ rest, by rw [List.append_nil]; rfl⟩

/-! ## Writing -/

/-- An attribute with its value as it is. -/
def attributeText (a : Attribute) : List Char := ' ' :: (a.1 ++ '=' :: '"' :: (a.2 ++ ['"']))

inductive Tag where
  | opening (name : List Char) (attributes : List Attribute)
  | empty (name : List Char) (attributes : List Attribute)
  | closing (name : List Char)
deriving DecidableEq, Repr

namespace Tag

def name : Tag → List Char
  | opening name _ | empty name _ | closing name => name

def attributes : Tag → List Attribute
  | opening _ attributes | empty _ attributes => attributes
  | closing _ => []

def text : Tag → List Char
  | opening name attributes => '<' :: (name ++ (attributes.flatMap attributeText ++ ['>']))
  | empty name attributes => '<' :: (name ++ (attributes.flatMap attributeText ++ ['/', '>']))
  | closing name => '<' :: '/' :: (name ++ ['>'])

def events : Tag → List Event
  | opening name attributes => [.start name attributes]
  | empty name attributes => [.start name attributes, .stop name]
  | closing name => [.stop name]

/-- The names are ones. -/
def Named (t : Tag) : Prop := IsName t.name ∧ ∀ a ∈ t.attributes, IsName a.1

/-- The values stand for themselves. -/
def Plain (t : Tag) : Prop := ∀ a ∈ t.attributes, Xml.Plain a.2

end Tag

/-- A tag on a line, at a depth. -/
def lineText (line : Nat × Tag) : List Char :=
  List.replicate (2 * line.1) ' ' ++ (line.2.text ++ ['\n'])

def written (lines : List (Nat × Tag)) : List Char := lines.flatMap lineText

section
variable {name : List Char} {attributes : List Attribute}

theorem run_attrName {attr : List Char} (l : List Char) : ∀ {b : List Char} {a : List Char},
    (∀ c ∈ b, isNameChar c = true) → a ++ b = attr →
    run (.attrName name attributes a) (b ++ '=' :: '"' :: l) = run (.quoted name attributes attr '"' []) l
  | [], a, _, h => by
    rw [List.append_nil] at h
    rw [h]
    rfl
  | c :: b, a, hb, h => by
    have hstep : step (.attrName name attributes a) c = .goes (.attrName name attributes (a ++ [c])) :=
      if_pos (hb c List.mem_cons_self)
    rw [List.cons_append, run_goes hstep]
    exact run_attrName l (fun d hd => hb d (List.mem_cons_of_mem c hd)) (by rw [List.append_assoc]; exact h)

/-- What is read up to the quote. -/
theorem run_quoted {attr : List Char} {quote : Char} (l : List Char) : ∀ {v raw : List Char}, quote ∉ v →
    run (.quoted name attributes attr quote raw) (v ++ quote :: l)
      = (decode (raw ++ v)).bind fun w => run (.tag name (attributes ++ [(attr, w)])) l
  | [], raw, _ => by
    rw [List.append_nil]
    cases hvalue : decode raw with
    | none => exact run_fails (by simp [step, hvalue]) l
    | some w => exact run_goes (by simp [step, hvalue]) l
  | c :: v, raw, h => by
    rw [List.mem_cons, not_or] at h
    have hstep : step (.quoted name attributes attr quote raw) c
        = .goes (.quoted name attributes attr quote (raw ++ [c])) := if_neg (Ne.symm h.1)
    rw [List.cons_append, run_goes hstep, run_quoted l h.2, List.append_assoc]
    rfl

theorem run_attribute {attr v : List Char} (hattr : IsName attr) (l : List Char) :
    run (.tag name attributes) (attributeText (attr, v) ++ l)
      = run (.quoted name attributes attr '"' []) (v ++ '"' :: l) := by
  cases attr with
  | nil => exact hattr.elim
  | cons c b =>
    have hstart : step (.spaced name attributes) c = .goes (.attrName name attributes [c]) :=
      if_pos hattr.1
    have htext : attributeText (c :: b, v) ++ l = ' ' :: c :: (b ++ '=' :: '"' :: (v ++ '"' :: l)) := by
      simp [attributeText]
    rw [htext, run_goes rfl, run_goes hstart]
    exact run_attrName _ hattr.2 rfl

/-- **An attribute is read back** exactly if its value is plain. -/
theorem run_attribute_iff {attr v l : List Char} (hattr : IsName attr) {more : List Attribute}
    {later : List Event} :
    run (.tag name attributes) (attributeText (attr, v) ++ l)
        = some (.start name (attributes ++ (attr, v) :: more) :: later) ↔
      Plain v ∧ run (.tag name (attributes ++ [(attr, v)])) l
        = some (.start name (attributes ++ (attr, v) :: more) :: later) := by
  rw [run_attribute hattr]
  by_cases hq : '"' ∈ v
  · -- the value ends at its own first quote, and is shorter
    refine iff_of_false (fun h => ?_) fun h => (h.1 _ hq).2.1 rfl
    obtain ⟨v1, v2, rfl, hv1⟩ := List.eq_append_cons_of_mem hq
    rw [List.append_assoc, List.cons_append, run_quoted _ hv1, Option.bind_eq_some_iff] at h
    obtain ⟨w, hw, hrun⟩ := h
    obtain ⟨more', later', heq⟩ := run_inside rfl hrun
    have hattrs := (Event.start.inj (List.cons.inj heq).1).2
    rw [List.append_assoc, List.append_cancel_left_eq] at hattrs
    have hvalue := (Prod.mk.inj (List.cons.inj hattrs).1).2
    have hlen := length_decode_le hw
    rw [← hvalue] at hlen
    simp at hlen
  · rw [run_quoted _ hq, List.nil_append, ← decode_self_iff hq, Option.bind_eq_some_iff]
    constructor
    · rintro ⟨w, hw, hrun⟩
      obtain ⟨more', later', heq⟩ := run_inside rfl hrun
      have hattrs := (Event.start.inj (List.cons.inj heq).1).2
      rw [List.append_assoc, List.append_cancel_left_eq] at hattrs
      obtain rfl := (Prod.mk.inj (List.cons.inj hattrs).1).2
      exact ⟨hw, hrun⟩
    · rintro ⟨hv, hrun⟩
      exact ⟨v, hv, hrun⟩

theorem run_attributes_iff {l : List Char} {more : List Attribute} {later : List Event} :
    ∀ {as attributes : List Attribute}, (∀ a ∈ as, IsName a.1) →
    (run (.tag name attributes) (as.flatMap attributeText ++ l)
        = some (.start name (attributes ++ as ++ more) :: later) ↔
      (∀ a ∈ as, Plain a.2) ∧ run (.tag name (attributes ++ as)) l
        = some (.start name (attributes ++ as ++ more) :: later))
  | [], attributes, _ => by simp
  | (attr, v) :: as, attributes, h => by
    have hsplit : attributes ++ (attr, v) :: as = attributes ++ [(attr, v)] ++ as := by simp
    have hmore : attributes ++ (attr, v) :: as ++ more = attributes ++ (attr, v) :: (as ++ more) := by simp
    rw [List.flatMap_cons, List.append_assoc, List.forall_mem_cons, hmore,
      run_attribute_iff (h _ List.mem_cons_self), ← hmore, hsplit,
      run_attributes_iff fun a ha => h a (List.mem_cons_of_mem _ ha), and_assoc]

theorem run_startName (l : List Char) : ∀ {b a : List Char}, (∀ c ∈ b, isNameChar c = true) →
    a ++ b = name → run (.startName a) (b ++ l) = run (.startName name) l
  | [], a, _, h => by
    rw [List.append_nil] at h
    rw [h, List.nil_append]
  | c :: b, a, hb, h => by
    have hstep : step (.startName a) c = .goes (.startName (a ++ [c])) := if_pos (hb c List.mem_cons_self)
    rw [List.cons_append, run_goes hstep]
    exact run_startName l (fun d hd => hb d (List.mem_cons_of_mem c hd)) (by rw [List.append_assoc]; exact h)

/-- A name that something else follows. -/
theorem run_start (hname : IsName name) {c : Char} (hc : isNameChar c = false) (l : List Char) :
    run .content ('<' :: (name ++ c :: l)) = run (.tag name []) (c :: l) := by
  cases name with
  | nil => exact hname.elim
  | cons d b =>
    have hslash : d ≠ '/' := by
      rintro rfl
      exact absurd hname.1 (by decide)
    have hopened : step .opened d = .goes (.startName [d]) := by
      rw [step, if_neg hslash, if_pos hname.1]
    have hsame : step (.startName (d :: b)) c = step (.tag (d :: b) []) c := by
      rw [step, hc]
      rfl
    have hread : run (.startName [d]) (b ++ c :: l) = run (.startName (d :: b)) (c :: l) :=
      run_startName (c :: l) hname.2 rfl
    rw [run_goes rfl, List.cons_append, run_goes hopened, hread]
    cases hstep : step (.tag (d :: b) []) c with
    | fails => rw [run_fails hstep, run_fails (hsame.trans hstep)]
    | goes next => rw [run_goes hstep, run_goes (hsame.trans hstep)]
    | emits events => rw [run_emits hstep, run_emits (hsame.trans hstep)]

theorem run_stopName (l : List Char) : ∀ {b a : List Char}, (∀ c ∈ b, isNameChar c = true) →
    a ++ b = name → run (.stopName a) (b ++ '>' :: l) = (run .content l).map ([.stop name] ++ ·)
  | [], a, _, h => by
    rw [List.append_nil] at h
    rw [h]
    rfl
  | c :: b, a, hb, h => by
    have hstep : step (.stopName a) c = .goes (.stopName (a ++ [c])) := if_pos (hb c List.mem_cons_self)
    rw [List.cons_append, run_goes hstep]
    exact run_stopName l (fun d hd => hb d (List.mem_cons_of_mem c hd)) (by rw [List.append_assoc]; exact h)

/-- The rest of a start tag. -/
theorem run_opening (hname : IsName name) (hattributes : ∀ a ∈ attributes, IsName a.1) {c : Char}
    (hc : isNameChar c = false) {l : List Char} {later : List Event} :
    run .content ('<' :: (name ++ (attributes.flatMap attributeText ++ c :: l)))
        = some (.start name attributes :: later) ↔
      (∀ a ∈ attributes, Plain a.2) ∧
        run (.tag name attributes) (c :: l) = some (.start name attributes :: later) := by
  have hstart : run .content ('<' :: (name ++ (attributes.flatMap attributeText ++ c :: l)))
      = run (.tag name []) (attributes.flatMap attributeText ++ c :: l) := by
    cases attributes with
    | nil => exact run_start hname hc l
    | cons a as => exact run_start hname (by decide) _
  have hread := @run_attributes_iff name (c :: l) [] later attributes [] hattributes
  rw [List.nil_append, List.append_nil] at hread
  rw [hstart, hread]

end

/-- **A tag is read back** exactly if its values are plain. -/
theorem run_text_iff {t : Tag} (h : t.Named) {l : List Char} {later : List Event} :
    run .content (t.text ++ l) = some (t.events ++ later) ↔ t.Plain ∧ run .content l = some later := by
  cases t with
  | opening name attributes =>
    obtain ⟨hname, hattributes⟩ : IsName name ∧ ∀ a ∈ attributes, IsName a.1 := h
    have htext : (Tag.opening name attributes).text ++ l
        = '<' :: (name ++ (attributes.flatMap attributeText ++ '>' :: l)) := by simp [Tag.text]
    have hend : run (.tag name attributes) ('>' :: l)
        = (run .content l).map ([.start name attributes] ++ ·) := run_emits rfl l
    rw [htext, Tag.events, List.singleton_append, run_opening hname hattributes (by decide), hend]
    simp [Tag.Plain, Tag.attributes]
  | empty name attributes =>
    obtain ⟨hname, hattributes⟩ : IsName name ∧ ∀ a ∈ attributes, IsName a.1 := h
    have htext : (Tag.empty name attributes).text ++ l
        = '<' :: (name ++ (attributes.flatMap attributeText ++ '/' :: '>' :: l)) := by simp [Tag.text]
    have hend : run (.tag name attributes) ('/' :: '>' :: l)
        = (run .content l).map ([.start name attributes, .stop name] ++ ·) :=
      (run_goes rfl _).trans (run_emits rfl l)
    rw [htext, Tag.events, List.cons_append, run_opening hname hattributes (by decide), hend]
    simp [Tag.Plain, Tag.attributes]
  | closing name =>
    obtain ⟨hname, -⟩ := h
    have htext : (Tag.closing name).text ++ l = '<' :: '/' :: (name ++ '>' :: l) := by simp [Tag.text]
    have hend : run .content ('<' :: '/' :: (name ++ '>' :: l))
        = (run .content l).map ([.stop name] ++ ·) := by
      cases name with
      | nil => exact hname.elim
      | cons c b =>
        have hstep : step .closing c = .goes (.stopName [c]) := if_pos hname.1
        rw [run_goes rfl, run_goes rfl, List.cons_append, run_goes hstep]
        exact run_stopName l hname.2 rfl
    rw [htext, Tag.events, hend]
    simp [Tag.Plain, Tag.attributes]

theorem run_blanks (n : Nat) (l : List Char) :
    run .content (List.replicate n ' ' ++ l) = run .content l := by
  induction n with
  | zero => rfl
  | succ n ih => exact (run_goes rfl _).trans ih

/-- **A document is read back** exactly if all values are plain. -/
theorem run_written_iff {l : List Char} {later : List Event} : ∀ {lines : List (Nat × Tag)},
    (∀ line ∈ lines, line.2.Named) →
    (run .content (written lines ++ l) = some (lines.flatMap (fun line => line.2.events) ++ later) ↔
      (∀ line ∈ lines, line.2.Plain) ∧ run .content l = some later)
  | [], _ => by simp [written]
  | line :: lines, h => by
    have htext : written (line :: lines) ++ l
        = List.replicate (2 * line.1) ' ' ++ (line.2.text ++ '\n' :: (written lines ++ l)) := by
      simp [written, lineText]
    have hbreak : run .content ('\n' :: (written lines ++ l)) = run .content (written lines ++ l) :=
      run_goes rfl _
    rw [htext, run_blanks, List.flatMap_cons, List.append_assoc, run_text_iff (h _ List.mem_cons_self),
      hbreak, run_written_iff fun line hline => h line (List.mem_cons_of_mem _ hline),
      List.forall_mem_cons, and_assoc]

theorem read_written_iff {lines : List (Nat × Tag)} (hnamed : ∀ line ∈ lines, line.2.Named)
    (hwell : wellFormed (lines.flatMap fun line => line.2.events) = true) :
    read ("<?xml version=\"1.0\" encoding=\"UTF-8\"?>\n".toList ++ written lines)
        = some (lines.flatMap fun line => line.2.events) ↔
      ∀ line ∈ lines, line.2.Plain := by
  have hbody : body ("<?xml version=\"1.0\" encoding=\"UTF-8\"?>\n".toList ++ written lines)
      = some ('\n' :: written lines) := rfl
  have hbreak : run .content ('\n' :: written lines) = run .content (written lines) := run_goes rfl _
  have hread := @run_written_iff [] [] lines hnamed
  simp only [List.append_nil] at hread
  rw [read, hbody, Option.bind_some, hbreak, Option.filter_eq_some_iff, hread]
  simp [hwell, run]

end Xml
