/-!
# Path names

A path name is a sequence of components under a root, which is empty for a name
relative to the working directory. Reading a name drops empty components and
`.`, but keeps `..`, because what is above a component is for the file system to
say. `text` is the plain form of a name. `absolute` does resolve `..`, by the
name alone.
-/

namespace Chip8

structure PathName where
  /-- The slashes that the name starts with, as they are kept: none, one, or exactly two. -/
  root : String
  parts : List String
  deriving DecidableEq, Repr

namespace PathName

def rootOf (cs : List Char) : String :=
  match (cs.takeWhile (· == '/')).length with
  | 0 => ""
  | 2 => "//"
  | _ => "/"

def components (name : String) : List String :=
  (name.splitOn "/").filter fun c => c ≠ "" ∧ c ≠ "."

def ofString (name : String) : PathName :=
  ⟨rootOf name.toList, components name⟩

def text (p : PathName) : String :=
  match p.root ++ "/".intercalate p.parts with
  | "" => "."
  | s => s

def parent (p : PathName) : PathName :=
  { p with parts := p.parts.dropLast }

/-- Some systems end a name at this character. -/
def hasTerminator (p : PathName) : Bool :=
  p.parts.any (·.toList.contains '\x00')

/-- Components without `..`; above the root there is the root. -/
def resolved (parts : List String) : List String :=
  (parts.foldl (fun above c => if c = ".." then above.drop 1 else c :: above) []).reverse

/-- The name from the root, for a working directory. -/
def absolute (p directory : PathName) : PathName :=
  if p.root = "" then ⟨directory.root, resolved (directory.parts ++ p.parts)⟩
  else ⟨p.root, resolved p.parts⟩

theorem length_resolved_le (parts : List String) : (resolved parts).length ≤ parts.length := by
  suffices ∀ above : List String,
      (parts.foldl (fun above c => if c = ".." then above.drop 1 else c :: above) above).length ≤
        above.length + parts.length by
    simpa [resolved] using this []
  induction parts with
  | nil => simp
  | cons c cs ih =>
    intro above
    rw [List.foldl_cons, List.length_cons]
    split
    · have := ih (above.drop 1); simp only [List.length_drop] at this; omega
    · have := ih (c :: above); simp only [List.length_cons] at this; omega

/-! ## What the components are made of -/

section

open String.Pos.Raw (extract)

theorem subset_of_extractTo (cs : List Char) (i e : String.Pos.Raw) :
    extract.go₂ cs i e ⊆ cs := by
  induction cs generalizing i with
  | nil => exact List.nil_subset []
  | cons c cs ih =>
    show (if i = e then [] else c :: extract.go₂ cs (i + c) e) ⊆ c :: cs
    split
    · exact List.nil_subset _
    · exact List.cons_subset_cons c (ih _)

theorem subset_of_extractFrom (cs : List Char) (i b e : String.Pos.Raw) :
    extract.go₁ cs i b e ⊆ cs := by
  induction cs generalizing i with
  | nil => exact List.nil_subset []
  | cons c cs ih =>
    show (if i = b then extract.go₂ (c :: cs) i e else extract.go₁ cs (i + c) b e) ⊆ c :: cs
    split
    · exact subset_of_extractTo _ i e
    · exact List.subset_cons_of_subset c (ih _)

theorem subset_of_extract (s : String) (b e : String.Pos.Raw) :
    (extract s b e).toList ⊆ s.toList := by
  show (if b.byteIdx ≥ e.byteIdx then "" else .ofList (extract.go₁ s.toList 0 b e)).toList ⊆ _
  split
  · exact List.nil_subset _
  · rw [String.toList_ofList]
    exact subset_of_extractFrom _ 0 b e

theorem subset_of_mem_splitOnAux (s sep : String) (b i j : String.Pos.Raw) (r : List String)
    (hr : ∀ c ∈ r, c.toList ⊆ s.toList) :
    ∀ c ∈ s.splitOnAux sep b i j r, c.toList ⊆ s.toList := by
  induction b, i, j, r using String.splitOnAux.induct s sep with
  | case1 b i j r hend =>
    rw [String.splitOnAux, if_pos hend]
    intro c hc
    rcases List.mem_cons.1 (List.mem_reverse.1 hc) with rfl | hc
    · exact subset_of_extract s b i
    · exact hr c hc
  | case2 b i j r hend heq i' j' hsep ih =>
    rw [String.splitOnAux, if_neg hend, if_pos heq]
    simp only [i', j'] at hsep ih
    simp only [if_pos hsep]
    refine ih fun c hc => ?_
    rcases List.mem_cons.1 hc with rfl | hc
    · exact subset_of_extract s b _
    · exact hr c hc
  | case3 b i j r hend heq i' j' hsep ih =>
    rw [String.splitOnAux, if_neg hend, if_pos heq]
    simp only [i', j'] at hsep ih
    simp only [if_neg hsep]
    exact ih hr
  | case4 b i j r hend heq ih =>
    rw [String.splitOnAux, if_neg hend, if_neg heq]
    exact ih hr

end

theorem subset_of_mem_components {name c : String} (hc : c ∈ components name) :
    c.toList ⊆ name.toList := by
  have hsplit := (List.mem_filter.1 hc).1
  exact subset_of_mem_splitOnAux name "/" 0 0 0 [] (fun _ h => absurd h List.not_mem_nil) c hsplit

/-- A name without the terminator has none in its components. -/
theorem hasTerminator_ofString {name : String} (h : '\x00' ∉ name.toList) :
    (ofString name).hasTerminator = false := by
  refine List.any_eq_false.2 fun c hc hmem => h ?_
  exact subset_of_mem_components hc (List.contains_iff_mem.1 hmem)

end PathName

end Chip8
