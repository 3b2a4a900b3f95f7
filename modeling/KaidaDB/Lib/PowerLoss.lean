import Mathlib.Data.List.Basic

/-!
# What a power loss leaves of files

A `Disk` has a binding for every name: the file the name stands for. Programs see writes and renames
at once; a power loss leaves of a file the bytes of its last `sync`, and under a name what it has stood
for at the last `syncDir` of its directory, or stands for now (`Binding.Leaves`). A file that has lost its
name is not written any more.

An operation concerns few names (`Op.Touches`), and all others stay as they are (`run_untouched`). A file
is replaced by one that is written under another name first (`run_replace`).
-/

namespace PowerLoss

variable {Name Dir α : Type}

structure File (α : Type) where
  bytes : List α
  /-- The bytes at the last `sync`. -/
  synced : List α

/-- What a name durably stands for. -/
inductive Kept (α : Type) where
  /-- The file it stands for now. -/
  | current
  /-- Another file, of which these bytes are durable, or none. -/
  | former (left : Option (List α))
deriving DecidableEq

structure Binding (α : Type) where
  file : Option (File α)
  kept : Kept α

abbrev Disk (Name α : Type) := Name → Binding α

inductive Op (Name Dir α : Type) where
  | create (name : Name)
  | append (name : Name) (bytes : List α)
  | sync (name : Name)
  | rename (source target : Name)
  | unlink (name : Name)
  | syncDir (dir : Dir)

namespace Binding

variable (binding : Binding α)

/-- What is durable of the file the name stands for. -/
def written : Option (List α) := binding.file.map File.synced

/-- What is durable of the file the name durably stands for. -/
def durable : Option (List α) :=
  match binding.kept with
  | .current => binding.written
  | .former left => left

/-- What a power loss may leave under the name. -/
def Leaves (left : Option (List α)) : Prop := left = binding.written ∨ left = binding.durable

/-- The name stands for another file from now on. -/
def replaced (file : Option (File α)) : Binding α := ⟨file, .former binding.durable⟩

def onFile (f : File α → File α) : Binding α := { binding with file := binding.file.map f }

end Binding

section
variable [DecidableEq Name] [DecidableEq Dir] (dirOf : Name → Dir)

def Op.apply (d : Disk Name α) (op : Op Name Dir α) : Disk Name α := fun n =>
  match op with
  | create name => if n = name then (d n).replaced (some ⟨[], []⟩) else d n
  | append name bytes =>
    if n = name then (d n).onFile fun f => { f with bytes := f.bytes ++ bytes } else d n
  | sync name => if n = name then (d n).onFile fun f => { f with synced := f.bytes } else d n
  | rename source target =>
    if n = target then (d n).replaced (d source).file
    else if n = source then (d n).replaced none
    else d n
  | unlink name => if n = name then (d n).replaced none else d n
  | syncDir dir => if dirOf n = dir then { d n with kept := .current } else d n

def Disk.run (d : Disk Name α) (ops : List (Op Name Dir α)) : Disk Name α := ops.foldl (Op.apply dirOf) d

/-- The operation may change the binding of the name. -/
def Op.Touches (n : Name) : Op Name Dir α → Prop
  | create name | append name _ | sync name | unlink name => n = name
  | rename source target => n = source ∨ n = target
  | syncDir dir => dirOf n = dir

/-- The operation is about the name itself, and not only about its directory. -/
def Op.Names (n : Name) : Op Name Dir α → Prop
  | create name | append name _ | sync name | unlink name => n = name
  | rename source target => n = source ∨ n = target
  | syncDir _ => False

variable {dirOf} {d : Disk Name α} {ops : List (Op Name Dir α)} {n : Name}

theorem run_append (d : Disk Name α) (ops rest : List (Op Name Dir α)) :
    d.run dirOf (ops ++ rest) = (d.run dirOf ops).run dirOf rest := List.foldl_append

theorem apply_untouched {op : Op Name Dir α} (h : ¬ op.Touches dirOf n) : op.apply dirOf d n = d n := by
  cases op with
  | rename source target =>
    obtain ⟨hs, ht⟩ := not_or.1 h
    rw [Op.apply, if_neg ht, if_neg hs]
  | _ => exact if_neg h

theorem run_untouched (h : ∀ op ∈ ops, ¬ op.Touches dirOf n) : d.run dirOf ops n = d n := by
  induction ops generalizing d with
  | nil => rfl
  | cons op ops ih =>
    obtain ⟨hop, hops⟩ := List.forall_mem_cons.1 h
    exact (ih hops).trans (apply_untouched hop)

/-- Writing piece by piece. -/
theorem run_appends (pieces : List (List α)) :
    d.run dirOf (pieces.map (.append n)) n
      = (d n).onFile fun f => { f with bytes := f.bytes ++ pieces.flatten } := by
  induction pieces generalizing d with
  | nil => simp [Disk.run, Binding.onFile]
  | cons piece pieces ih =>
    refine ih.trans ?_
    simp only [Op.apply, if_true, Binding.onFile, Option.map_map, List.flatten_cons]
    congr 2
    funext f
    simp

/-- Only its own operations change a binding that is durable. -/
theorem apply_unnamed {op : Op Name Dir α} (h : ¬ op.Names n) (hkept : (d n).kept = .current) :
    op.apply dirOf d n = d n := by
  cases op with
  | rename source target =>
    obtain ⟨hs, ht⟩ := not_or.1 h
    rw [Op.apply, if_neg ht, if_neg hs]
  | syncDir dir =>
    simp only [Op.apply]
    split_ifs
    · rw [← hkept]
    · rfl
  | _ => exact if_neg h

theorem run_unnamed (h : ∀ op ∈ ops, ¬ op.Names n) (hkept : (d n).kept = .current) :
    d.run dirOf ops n = d n := by
  induction ops generalizing d with
  | nil => rfl
  | cons op ops ih =>
    obtain ⟨hop, hops⟩ := List.forall_mem_cons.1 h
    have hsame : op.apply dirOf d n = d n := apply_unnamed hop hkept
    exact (ih hops (by rw [hsame, hkept])).trans hsame

theorem run_unnamed_file (h : ∀ op ∈ ops, ¬ op.Names n) : (d.run dirOf ops n).file = (d n).file := by
  induction ops generalizing d with
  | nil => rfl
  | cons op ops ih =>
    obtain ⟨hop, hops⟩ := List.forall_mem_cons.1 h
    refine (ih hops).trans ?_
    cases op with
    | rename source target =>
      obtain ⟨hs, ht⟩ := not_or.1 hop
      rw [Op.apply, if_neg ht, if_neg hs]
    | syncDir dir =>
      simp only [Op.apply]
      split_ifs <;> rfl
    | _ => exact congrArg Binding.file (if_neg hop)

/-! ## Replacing a file -/

/-- A new file is written and synced under another name, and takes the place of the old one. -/
def replaceOps (tmp n : Name) (pieces : List (List α)) : List (Op Name Dir α) :=
  .create tmp :: pieces.map (.append tmp) ++ [.sync tmp, .rename tmp n]

variable {tmp : Name} (hne : n ≠ tmp) (pieces : List (List α))
include hne

theorem run_replace : d.run dirOf (replaceOps tmp n pieces) n
    = (d n).replaced (some ⟨pieces.flatten, pieces.flatten⟩) := by
  have hcreated : ((d.run dirOf [.create tmp]).run dirOf (pieces.map (.append tmp)) tmp).file
      = some ⟨pieces.flatten, []⟩ := by
    rw [run_appends]
    simp [Disk.run, Op.apply, Binding.onFile, Binding.replaced]
  have hbinding : (d.run dirOf (.create tmp :: pieces.map (.append tmp))) n = d n := by
    refine run_untouched fun op hop => ?_
    rcases List.mem_cons.1 hop with rfl | hop
    · exact hne
    · obtain ⟨piece, -, rfl⟩ := List.mem_map.1 hop
      exact hne
  have hfile : ((Op.sync tmp).apply dirOf (d.run dirOf (.create tmp :: pieces.map (.append tmp))) tmp).file
      = some ⟨pieces.flatten, pieces.flatten⟩ := by
    simp only [Op.apply, if_true, Binding.onFile]
    exact congrArg (Option.map _) hcreated
  rw [replaceOps, run_append]
  show (if n = n then ((Op.sync tmp).apply dirOf _ n).replaced _ else _) = _
  have huntouched : ¬ (Op.sync tmp : Op Name Dir α).Touches dirOf n := hne
  rw [if_pos rfl, apply_untouched huntouched, hbinding, hfile]

/-- Up to the renaming the old file is in place. -/
theorem run_replace_take (k : Nat) : d.run dirOf ((replaceOps tmp n pieces).take k) n = d n ∨
    d.run dirOf ((replaceOps tmp n pieces).take k) n
      = (d n).replaced (some ⟨pieces.flatten, pieces.flatten⟩) := by
  have hsplit : (replaceOps tmp n pieces : List (Op Name Dir α))
      = (.create tmp :: pieces.map (.append tmp) ++ [.sync tmp]) ++ [.rename tmp n] := by
    simp [replaceOps]
  by_cases hk : k ≤ (.create tmp :: pieces.map (.append tmp) ++ [.sync tmp] : List (Op Name Dir α)).length
  · refine .inl (run_untouched fun op hop => ?_)
    rw [hsplit, List.take_append_of_le_length hk] at hop
    rcases List.mem_append.1 (List.mem_of_mem_take hop) with hop | hop
    · rcases List.mem_cons.1 hop with rfl | hop
      · exact hne
      · obtain ⟨piece, -, rfl⟩ := List.mem_map.1 hop
        exact hne
    · rw [List.mem_singleton.1 hop]
      exact hne
  · refine .inr ?_
    rw [List.take_of_length_le (by rw [hsplit, List.length_append]; simp at hk ⊢; omega)]
    exact run_replace hne pieces

end

end PowerLoss
