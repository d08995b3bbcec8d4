import Mathlib.Data.List.Basic
import Retime.CommandLine.FileTree

/-! # Deliveries

A run delivers its files: it makes a directory and writes them to it one after another. In a tree
of files that can always be done in the working directory, unless a directory stands where a file
is to be written, or a name is none.
-/

namespace Retime.CommandLine

variable {W : Type} {fs : FileSystem (StateM W)} {directory : String} {w w' : W}
  {files : List (String × String)}

/-- Files are written one after another, and each of them can be. -/
inductive Stores (fs : FileSystem (StateM W)) (directory : String) :
    List (String × String) → W → W → Prop where
  | done (w : W) : Stores fs directory [] w w
  | next {name text : String} {files : List (String × String)} {w w₁ w₂ : W}
      (hwrite : (fs.write (inDirectory directory name) text).run w = (.ok (), w₁))
      (hrest : Stores fs directory files w₁ w₂) : Stores fs directory ((name, text) :: files) w w₂

/-- A directory is made, and files are written to it. -/
def Delivers (fs : FileSystem (StateM W)) (directory : String) (files : List (String × String))
    (w w' : W) : Prop :=
  ∃ w₁, (fs.makeDirectory directory).run w = (.ok (), w₁) ∧ Stores fs directory files w₁ w'

theorem Stores.run_writeFiles (h : Stores fs directory files w w') :
    (writeFiles fs directory files).run w =
      ((files.map fun file => .wrote (inDirectory directory file.1), true), w') := by
  induction h with
  | done => rfl
  | next hwrite hrest ih =>
      unfold writeFiles
      rw [StateT.run_bind, hwrite]
      show (writeFiles fs directory _ >>= _ : StateM W _).run _ = _
      rw [StateT.run_bind, ih]
      rfl

theorem Delivers.run_writeTo (h : Delivers fs directory files w w') :
    (writeTo fs directory files).run w =
      ((files.map fun file => .wrote (inDirectory directory file.1), true), w') := by
  obtain ⟨w₁, hmake, hstores⟩ := h
  unfold writeTo
  rw [StateT.run_bind, hmake]
  exact hstores.run_writeFiles

/-! ## Deliveries to a list -/

/-- A file system that keeps a list of what is written, where no file is there to be read. -/
def journal : FileSystem (StateM (List (String × String))) where
  read _ := pure (.error .notFound)
  makeDirectory _ := pure (.ok ())
  write path content := do
    modify (· ++ [(path, content)])
    return .ok ()

theorem delivers_journal (directory : String) (files written : List (String × String)) :
    Delivers journal directory files written
      (written ++ files.map fun file => (inDirectory directory file.1, file.2)) := by
  refine ⟨written, rfl, ?_⟩
  induction files generalizing written with
  | nil =>
      rw [List.map_nil, List.append_nil]
      exact .done written
  | cons file files ih =>
      have hrest := ih (written ++ [(inDirectory directory file.1, file.2)])
      rw [List.append_assoc, List.singleton_append] at hrest
      exact .next rfl hrest

/-! ## Deliveries to a tree -/

namespace FileTree

theorem betweenSlashes_cons {c : Char} (hc : c ≠ '/') (s : List Char) :
    betweenSlashes (c :: s) =
      (c :: (betweenSlashes s).headD []) :: (betweenSlashes s).tail := by
  conv_lhs => unfold betweenSlashes
  split
  · next heq => cases heq
  · next heq => exact absurd (List.cons.inj heq).1 hc
  · next heq =>
      obtain ⟨rfl, rfl⟩ := List.cons.inj heq
      cases betweenSlashes s <;> rfl

theorem betweenSlashes_of_notMem {l : List Char} (h : '/' ∉ l) : betweenSlashes l = [l] := by
  induction l with
  | nil => rfl
  | cons c l ih =>
      obtain ⟨hc, hl⟩ := not_or.mp (mt List.mem_cons.mpr h)
      rw [betweenSlashes_cons (Ne.symm hc), ih hl]
      rfl

theorem betweenSlashes_append {l : List Char} (h : '/' ∉ l) (rest : List Char) :
    betweenSlashes (l ++ '/' :: rest) = l :: betweenSlashes rest := by
  induction l with
  | nil => rfl
  | cons c l ih =>
      obtain ⟨hc, hl⟩ := not_or.mp (mt List.mem_cons.mpr h)
      rw [List.cons_append, betweenSlashes_cons (Ne.symm hc), ih hl]
      rfl

/-- A text that names an entry of the directory in which it is looked up. -/
structure IsName (name : String) : Prop where
  slash : '/' ∉ name.toList
  nonempty : name ≠ ""
  dot : name ≠ "."
  dots : name ≠ ".."
  size : name.utf8ByteSize ≤ maxName

section Here

variable {name : String} (hname : IsName name)
include hname

theorem parts_here : parts ("./" ++ name) = .ok [".", name] := by
  have hsize : ¬ maxText < ("./" ++ name).utf8ByteSize := by
    rw [String.utf8ByteSize_append]
    have hlimit := hname.size
    have hdot : "./".utf8ByteSize = 2 := by decide
    simp only [maxName, maxText] at *
    omega
  have hlist : ("./" ++ name).toList = ['.'] ++ '/' :: name.toList := by simp
  have hne : name.toList ≠ [] := by simpa using hname.nonempty
  unfold parts
  rw [if_neg hsize, hlist, if_neg (by simp), betweenSlashes_append (by simp),
    betweenSlashes_of_notMem hname.slash]
  simp [hne]

theorem namesDirectory_here : namesDirectory ("./" ++ name) [".", name] = false := by
  have hlast : ("./" ++ name).toList.getLast? ≠ some '/' := by
    have hne : name.toList ≠ [] := by simpa using hname.nonempty
    rw [String.toList_append, List.getLast?_append_of_ne_nil _ hne]
    exact fun hslash => hname.slash (List.mem_of_getLast? hslash)
  simp only [namesDirectory, hlast]
  simp [hname.dot, hname.dots]

theorem place_here (t : FileTree) : t.place ("./" ++ name) = .ok ([], name) := by
  unfold place
  simp only [parts_here hname, bind, Except.bind, namesDirectory_here hname]
  rfl

/-- A file is written to the working directory, unless a directory has its name. -/
theorem write_here {t : FileTree} (hfree : ([name], Entry.directory) ∉ t.entries)
    (content : String) : t.write ("./" ++ name) content = .ok (t.put [name] (.file content)) := by
  have hinside : isUpward [name] = false := by simp [isUpward, hname.dots]
  have hlook : t.look [] name = .error .notFound ∨ ∃ old, t.look [] name = .ok (.file old) := by
    unfold look entry?
    rw [List.nil_append, hinside]
    cases hentry : t.entries.lookup [name] with
    | none => exact .inl (by simp [hname.size])
    | some e =>
        cases e with
        | directory =>
            obtain ⟨before, after, hentries, -⟩ := List.lookup_eq_some_iff.mp hentry
            exact absurd (by simp [hentries]) hfree
        | file old => exact .inr ⟨old, rfl⟩
  unfold write
  simp only [place_here hname, bind, Except.bind]
  rcases hlook with hlook | ⟨old, hlook⟩ <;> rw [hlook] <;> rfl

end Here

/-- The tree with files written to the working directory. -/
def withFiles (t : FileTree) (files : List (String × String)) : FileTree :=
  files.foldl (fun t file => t.put [file.1] (.file file.2)) t

/-- Reading leaves a tree as it is. -/
theorem read_fileSystem (path : String) (t : FileTree) : ((fileSystem.read path).run t).2 = t :=
  rfl

theorem makeDirectory_here (t : FileTree) : t.makeDirectory "." = (t, .ok ()) := by
  have hparts : parts "." = .ok ["."] := by decide
  unfold makeDirectory
  rw [hparts]
  rfl

theorem run_write {t t' : FileTree} {path content : String} (h : t.write path content = .ok t') :
    (fileSystem.write path content).run t = (.ok (), t') := by
  simp [fileSystem, modifyGet, MonadStateOf.modifyGet, StateT.modifyGet, StateT.run, pure, h]

/-- To the working directory any files can be delivered whose names no directory has. -/
theorem delivers_here {t : FileTree} {files : List (String × String)}
    (hnames : ∀ file ∈ files, IsName file.1)
    (hfree : ∀ file ∈ files, ([file.1], Entry.directory) ∉ t.entries) :
    Delivers fileSystem "." files t (t.withFiles files) := by
  have hpath : ∀ name, inDirectory "." name = "./" ++ name := by
    intro name
    have hslash : ".".endsWith "/" = false := by decide +kernel
    rw [inDirectory, hslash]
    rfl
  refine ⟨t, congrArg Prod.swap (makeDirectory_here t), ?_⟩
  induction files generalizing t with
  | nil => exact .done t
  | cons file files ih =>
      obtain ⟨name, content⟩ := file
      obtain ⟨hname, hnames⟩ := List.forall_mem_cons.mp hnames
      obtain ⟨hhere, hfree⟩ := List.forall_mem_cons.mp hfree
      have hwrite : (fileSystem.write (inDirectory "." name) content).run t =
          (.ok (), t.put [name] (.file content)) := by
        apply run_write
        rw [hpath, write_here hname hhere]
      -- a file takes no name away from those that come after it
      have hrest : ∀ file ∈ files,
          ([file.1], Entry.directory) ∉ (t.put [name] (.file content)).entries := by
        intro file hfile hmem
        apply hfree file hfile
        have hkept : ([file.1], Entry.directory) ∈ t.entries ∧ file.1 ≠ name := by
          simpa [put] using hmem
        exact hkept.1
      exact .next hwrite (ih hnames hrest)

end FileTree

end Retime.CommandLine
