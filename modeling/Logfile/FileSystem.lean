import Mathlib

/-!
# Files by name, and a stream that writes to one

A directory maps names to files, which are numbered and hold the chunks written to them. No
two names share a file. A file whose name is taken by another is still there for the stream
that has it open, but under no name.

`Ofstream` is an output stream of the C++ library : the file it has open, its error state,
which stays until a file is opened, and the position. Whether an operation succeeds comes as
an argument, and a failed write has written some of its bytes.
-/

set_option linter.unusedSectionVars false

/-- Names, and the files they stand for. -/
structure FileSystem (ν β : Type*) where
  dir : ν → Option ℕ
  files : ℕ → List β
  next : ℕ
  lt_next : ∀ {name i}, dir name = some i → i < next
  inj : ∀ {a b i}, dir a = some i → dir b = some i → a = b

namespace FileSystem

variable {ν β : Type*} [DecidableEq ν] (fs : FileSystem ν β)

/-- The file `old` becomes the file `new`, whatever that was. -/
def rename (old new : ν) : FileSystem ν β where
  dir n := if n = new then fs.dir old else if n = old then none else fs.dir n
  files := fs.files
  next := fs.next
  lt_next := by
    intro n i h
    split_ifs at h
    · exact fs.lt_next h
    · exact fs.lt_next h
  inj := by
    intro a b i ha hb
    split_ifs at ha hb with hanew hbnew hbold haold hbnew hbold
    · rw [hanew, hbnew]
    · exact absurd (fs.inj hb ha) hbold
    · exact absurd (fs.inj ha hb) haold
    · exact fs.inj ha hb

/-- The file `name`, emptied, or a new one of that name. -/
def create (name : ν) : FileSystem ν β × ℕ :=
  match fs.dir name with
  | some i => ({ fs with files := fun j => if j = i then [] else fs.files j }, i)
  | none =>
    ({  dir := fun n => if n = name then some fs.next else fs.dir n
        files := fun j => if j = fs.next then [] else fs.files j
        next := fs.next + 1
        lt_next := by
          intro n i h
          split_ifs at h
          · obtain rfl := Option.some.inj h
            exact Nat.lt_succ_self _
          · exact Nat.lt_succ_of_lt (fs.lt_next h)
        inj := by
          intro a b i ha hb
          split_ifs at ha hb with haname hbname hbname
          · rw [haname, hbname]
          · obtain rfl := Option.some.inj ha
            exact absurd (fs.lt_next hb) (lt_irrefl _)
          · obtain rfl := Option.some.inj hb
            exact absurd (fs.lt_next ha) (lt_irrefl _)
          · exact fs.inj ha hb }, fs.next)

def append (i : ℕ) (c : β) : FileSystem ν β :=
  { fs with files := fun j => if j = i then fs.files j ++ [c] else fs.files j }

variable {fs} {old new name a : ν} {i j : ℕ} {c : β}

@[simp] theorem rename_files : (fs.rename old new).files = fs.files := rfl

theorem rename_dir_new : (fs.rename old new).dir new = fs.dir old := if_pos rfl

theorem rename_dir_old (h : old ≠ new) : (fs.rename old new).dir old = none := by
  simp [rename, h]

theorem rename_dir_of_ne (hold : a ≠ old) (hnew : a ≠ new) :
    (fs.rename old new).dir a = fs.dir a := by
  simp [rename, hold, hnew]

@[simp] theorem append_dir : (fs.append i c).dir = fs.dir := rfl

theorem append_files (fs : FileSystem ν β) (i : ℕ) (c : β) (j : ℕ) :
    (fs.append i c).files j = if j = i then fs.files j ++ [c] else fs.files j := rfl

theorem append_files_self : (fs.append i c).files i = fs.files i ++ [c] := if_pos rfl

theorem mem_append {d : β} :
    d ∈ (fs.append i c).files j ↔ d ∈ fs.files j ∨ j = i ∧ d = c := by
  by_cases h : j = i
  · simp [append, h]
  · simp [append, h]

theorem create_dir : (fs.create name).1.dir name = some (fs.create name).2 := by
  unfold create
  split
  · next i hi => exact hi
  · simp

theorem create_dir_of_ne (h : a ≠ name) : (fs.create name).1.dir a = fs.dir a := by
  unfold create
  split
  · rfl
  · simp [h]

theorem create_files : (fs.create name).1.files (fs.create name).2 = [] := by
  unfold create
  split <;> simp

theorem create_files_of_ne (h : j ≠ (fs.create name).2) :
    (fs.create name).1.files j = fs.files j := by
  unfold create at h ⊢
  split <;> simp_all

/-- What a file holds after a file is created, it has held before. -/
theorem mem_of_mem_create (h : c ∈ (fs.create name).1.files j) : c ∈ fs.files j := by
  by_cases hj : j = (fs.create name).2
  · rw [hj, create_files] at h
    cases h
  · rwa [create_files_of_ne hj] at h

/-- A new file is not one that has had a name. -/
theorem create_ne_of_dir (hname : fs.dir name = none) (ha : fs.dir a = some i) :
    i ≠ (fs.create name).2 := by
  unfold create
  split
  · next k hk =>
    rw [hname] at hk
    cases hk
  · exact (fs.lt_next ha).ne

end FileSystem

/-! ## Contents -/

/-- Bytes written at a time, with where they come from. -/
structure Chunk (τ : Type*) where
  source : τ
  bytes : List UInt8
  deriving DecidableEq

namespace FileSystem

variable {ν τ : Type*} [DecidableEq ν]

/-- The bytes in the file of the given name. -/
def content (fs : FileSystem ν (Chunk τ)) (name : ν) : Option (List UInt8) :=
  (fs.dir name).map fun i => (fs.files i).flatMap Chunk.bytes

variable {fs : FileSystem ν (Chunk τ)} {a old new name : ν} {i : ℕ}

theorem content_rename : (fs.rename old new).content name =
    if name = new then fs.content old else if name = old then none else fs.content name := by
  unfold content rename
  dsimp only
  split_ifs <;> rfl

theorem content_append (ha : fs.dir a = some i) (c : Chunk τ) : (fs.append i c).content name =
    if name = a then (fs.content name).map (· ++ c.bytes) else fs.content name := by
  rw [content, content, append_dir]
  split_ifs with hname
  · subst hname
    simp [ha, append_files]
  · cases hdir : fs.dir name with
    | none => rfl
    | some j =>
      have hj : j ≠ i := by
        rintro rfl
        exact hname (fs.inj hdir ha)
      simp [append_files, hj]

theorem content_create (hnone : fs.dir a = none) :
    (fs.create a).1.content name = if name = a then some [] else fs.content name := by
  rw [content, content]
  split_ifs with hname
  · subst hname
    simp [create_dir, create_files]
  · rw [create_dir_of_ne hname]
    cases hdir : fs.dir name with
    | none => rfl
    | some j => simp [create_files_of_ne (create_ne_of_dir hnone hdir)]

end FileSystem

/-! ## Output streams -/

/-- `std::ofstream`. `failed` : `failbit` or `badbit` is set. -/
structure Ofstream where
  file : Option ℕ
  failed : Bool
  pos : ℕ

namespace Ofstream

variable {ν τ : Type*} [DecidableEq ν]

/-- A stream without a file. -/
def closed : Ofstream := ⟨none, false, 0⟩

def good (s : Ofstream) : Bool :=
  !s.failed

def tellp (s : Ofstream) : ℤ :=
  if s.failed ∨ s.file = none then -1 else s.pos

/-- `open(name)`, which fails if the stream has a file open. -/
def openFile (s : Ofstream) (fs : FileSystem ν (Chunk τ)) (name : ν) (ok : Bool) :
    FileSystem ν (Chunk τ) × Ofstream :=
  if s.file.isSome ∨ ok = false then (fs, { s with failed := true })
  else ((fs.create name).1, ⟨some (fs.create name).2, false, 0⟩)

/-- `<<` and `flush()`. The outcome is `none` if all is written, otherwise how much is. -/
def put (s : Ofstream) (fs : FileSystem ν (Chunk τ)) (c : Chunk τ) (outcome : Option ℕ) :
    FileSystem ν (Chunk τ) × Ofstream :=
  if s.failed then (fs, s)
  else
    match s.file, outcome with
    | none, _ => (fs, { s with failed := true })
    | some i, none => (fs.append i c, { s with pos := s.pos + c.bytes.length })
    | some i, some n =>
      (fs.append i { c with bytes := c.bytes.take n }, { s with failed := true })

/-- `close()`. The file is closed even if what is left to write cannot be written. What a failed
flush has left pending is not written again, as a `filebuf` may try to. -/
def close (s : Ofstream) (ok : Bool) : Ofstream :=
  match s.file with
  | none => { s with failed := true }
  | some _ => { s with file := none, failed := s.failed || !ok }

variable {s : Ofstream} {fs : FileSystem ν (Chunk τ)} {c : Chunk τ} {name : ν} {i n : ℕ}

@[simp] theorem close_file (s : Ofstream) (ok : Bool) : (s.close ok).file = none := by
  unfold close
  split
  · next h => exact h
  · rfl

@[simp] theorem put_file (o : Option ℕ) : (s.put fs c o).2.file = s.file := by
  unfold put
  split
  · rfl
  · split <;> simp_all

theorem put_of_failed (h : s.failed = true) (o : Option ℕ) : s.put fs c o = (fs, s) := if_pos h

theorem put_of_open (hfile : s.file = some i) (hgood : s.failed = false) :
    s.put fs c none = (fs.append i c, { s with pos := s.pos + c.bytes.length }) := by
  simp [put, hgood, hfile]

theorem openFile_of_closed (h : s.file = none) : s.openFile fs name true =
    ((fs.create name).1, ⟨some (fs.create name).2, false, 0⟩) := by
  simp [openFile, h]

theorem openFile_of_not_ok : s.openFile fs name false = (fs, { s with failed := true }) := by
  simp [openFile]

end Ofstream
