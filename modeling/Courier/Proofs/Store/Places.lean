import Courier.Store.Tree

/-!
# Places in a tree

Names that are looked up as they stand (`Plain`) lead from the root of a tree downwards, so the
place they lead to is found by recursion on them: `Tree.follow`, which `Tree.nodeAt_eq` ties to the
walk over places. A `FilePath` is such a row of names, the last of which is that of a file.

* `Tree.exists_makeDirectories`: if a path leads to a file or to nothing, the directories on its way
  can be made, and this changes nothing about where it leads.
* `Tree.follow_graft`: what is put at the end of a path that leads through directories is found
  there.
-/

namespace Courier.Store

/-- A part of a path that is looked up as it stands. -/
structure Plain (part : String) : Prop where
  ne_empty : part ≠ ""
  ne_dot : part ≠ "."
  ne_dots : part ≠ ".."
  short : (Text.octets part).length ≤ longestPart

/-- A path that leads through directories to a file. -/
structure FilePath where
  /-- The directories on the way. -/
  directories : List String
  /-- The name of the file. -/
  name : String
  plain : ∀ part ∈ directories ++ [name], Plain part

/-- The names of a path in a row. -/
def FilePath.names (p : FilePath) : List String :=
  p.directories ++ [p.name]

theorem FilePath.plain_names (p : FilePath) : ∀ part ∈ p.names, Plain part :=
  p.plain

namespace Tree

/-! ## Following names -/

/-- The tree that some names lead to. -/
def follow : List String → Tree → Except Fault Tree
  | [], t => .ok t
  | _ :: _, .file _ => .error .notADirectory
  | name :: names, .directory entries =>
    match entries.lookup name with
    | some inner => follow names inner
    | none => .error .notFound

variable {names directories : List String} {name : String} {t inner : Tree}
  {entries : List (String × Tree)}

/-- A plain name leads to the entry of a directory. -/
theorem step_plain (h : Plain name) (around : List Tree) :
    Place.step ⟨.directory entries, around⟩ name =
      match entries.lookup name with
      | some inner => .ok ⟨inner, .directory entries :: around⟩
      | none => .error .notFound := by
  have hstay : ¬ (name = "" ∨ name = ".") := not_or.mpr ⟨h.ne_empty, h.ne_dot⟩
  have hshort : ¬ longestPart < (Text.octets name).length := Nat.not_lt.mpr h.short
  simp only [Place.step, if_neg hstay, if_neg h.ne_dots, if_neg hshort]
  rfl

/-- Plain names lead where a walk along them leads. -/
theorem map_here_walk (h : ∀ part ∈ names, Plain part) (around : List Tree) :
    ((Place.mk t around).walk names).map (·.here) = t.follow names := by
  induction names generalizing t around with
  | nil => rfl
  | cons name names ih =>
    obtain ⟨hname, hnames⟩ := List.forall_mem_cons.mp h
    cases t with
    | file content => rfl
    | directory entries =>
      rw [Place.walk, List.foldlM_cons, step_plain hname, follow]
      cases entries.lookup name with
      | none => rfl
      | some inner => exact ih hnames _

/-- What stands at the end of plain names. -/
theorem nodeAt_eq (h : ∀ part ∈ names, Plain part) :
    t.nodeAt names =
      match t.follow names with
      | .ok inner => .ok inner.node
      | .error .notFound => .ok .absent
      | .error f => .error f := by
  rw [← map_here_walk h [], nodeAt, Place.root]
  cases (Place.mk t []).walk names with
  | ok p => rfl
  | error f => cases f <;> rfl

/-- A file stands at the end of plain names if they lead to it. -/
theorem nodeAt_eq_file_iff (h : ∀ part ∈ names, Plain part) {content : List UInt8} :
    t.nodeAt names = .ok (.file content) ↔ t.follow names = .ok (.file content) := by
  rw [nodeAt_eq h]
  constructor
  · intro hnode
    split at hnode
    next inner hinner =>
      cases inner with
      | file content' => rw [hinner, (Node.file.inj (Except.ok.inj hnode) : content' = content)]
      | directory entries => cases hnode
    next => cases hnode
    next => cases hnode
  · intro hfollow
    rw [hfollow]
    rfl

/-- Nothing stands at the end of plain names if nothing is found on the way. -/
theorem nodeAt_eq_absent_iff (h : ∀ part ∈ names, Plain part) :
    t.nodeAt names = .ok .absent ↔ t.follow names = .error .notFound := by
  rw [nodeAt_eq h]
  constructor
  · intro hnode
    split at hnode
    next inner hinner => cases inner <;> cases hnode
    next hnone => exact hnone
    next => cases hnode
  · intro hfollow
    rw [hfollow]

/-- A directory that is not there leads as far as one without entries. -/
theorem follow_cons (h : names ≠ []) :
    follow (name :: names) (.directory entries) =
      follow names ((entries.lookup name).getD empty) := by
  rw [follow]
  cases entries.lookup name with
  | some inner => rfl
  | none =>
    obtain ⟨first, rest, rfl⟩ := List.exists_cons_of_ne_nil h
    rfl

/-- A name leads to what has been put under it. -/
theorem follow_withEntry :
    follow (name :: names) ((Tree.directory entries).withEntry name inner) =
      follow names inner := by
  rw [withEntry, follow, List.lookup_cons_self]

/-! ## Making and putting -/

/-- **The directories on the way to a file or to nothing can be made**, and the way leads where it
led before. -/
theorem exists_makeDirectories (hshort : ∀ d ∈ directories, (Text.octets d).length ≤ longestPart)
    (h : (∃ content, follow (directories ++ [name]) t = .ok (.file content)) ∨
      follow (directories ++ [name]) t = .error .notFound) :
    ∃ t' entries, t.makeDirectories directories = .ok t' ∧
      follow directories t' = .ok (.directory entries) ∧
        follow (directories ++ [name]) t' = follow (directories ++ [name]) t := by
  induction directories generalizing t with
  | nil =>
    cases t with
    | file content => rcases h with ⟨_, h⟩ | h <;> cases h
    | directory entries => exact ⟨_, entries, rfl, rfl, rfl⟩
  | cons d directories ih =>
    obtain ⟨hd, hshort⟩ := List.forall_mem_cons.mp hshort
    cases t with
    | file content => rcases h with ⟨_, h⟩ | h <;> cases h
    | directory entries =>
      -- The first directory is made empty if it is missing, and the rest is made within it.
      have hne : directories ++ [name] ≠ [] := by simp
      rw [List.cons_append, follow_cons hne] at h ⊢
      obtain ⟨inner, within, hmade, hleads, hsame⟩ := ih hshort h
      refine ⟨(Tree.directory entries).withEntry d inner, within, ?_, ?_, ?_⟩
      · rw [makeDirectories, if_neg (Nat.not_lt.mpr hd), hmade]
        rfl
      · rw [follow_withEntry, hleads]
      · rw [follow_withEntry, hsame]

/-- What is put under a name in a directory is found there. -/
theorem follow_graft (h : follow directories t = .ok (.directory entries)) :
    follow (directories ++ [name]) (graft inner (directories ++ [name]) t) = .ok inner := by
  induction directories generalizing t with
  | nil =>
    obtain rfl := Except.ok.inj h
    rw [List.nil_append, graft, follow_withEntry]
    rfl
  | cons d directories ih =>
    cases t with
    | file content => cases h
    | directory others =>
      rw [follow] at h
      cases hd : others.lookup d with
      | none =>
        rw [hd] at h
        cases h
      | some next =>
        rw [hd] at h
        rw [List.cons_append, graft, follow_withEntry, entry?, hd]
        exact ih h

end Tree

end Courier.Store
