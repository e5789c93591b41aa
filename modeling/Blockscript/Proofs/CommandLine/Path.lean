import Blockscript.CommandLine.Report
import Blockscript.Proofs.Text.Character
import Mathlib.Data.String.Basic

/-!
# Paths

The parts of a path are what stands between its slashes. In its shortest form they are
neither empty nor a point, and such a form is its own shortest one, as is the path of the
tree of a file named by it.

* `splitOn_slash`: the parts of a path;
* `normalizePath_of_areParts`, `exists_normalizePath`: shortest forms;
* `normalizePath_treePath`: the path of the tree of a file is in its shortest form.
-/

namespace Blockscript

open String

/-- Splitting at slashes after `l`, where the part that is being read starts with `m`. -/
theorem splitOnAux_slash (l m r : List Char) (acc : List String) :
    splitOnAux (ofList (l ++ m ++ r)) "/" ⟨utf8Len l⟩ ⟨utf8Len l + utf8Len m⟩ 0 acc =
      acc.reverse ++ (List.splitOnPPrepend (· == '/') r m.reverse).map ofList := by
  have hget : Pos.Raw.get "/" 0 = '/' := rfl
  have hnext : Pos.Raw.next "/" 0 = ⟨1⟩ := rfl
  have hend : Pos.Raw.atEnd "/" ⟨1⟩ = true := rfl
  have hunoffset : ∀ n, (⟨n⟩ : Pos.Raw).unoffsetBy 0 = ⟨n⟩ := fun _ => rfl
  -- By recursion on the characters still to come: the second part is the piece that is being
  -- collected, the first one what is cut off already.
  unfold splitOnAux
  simp only [List.append_assoc, atEnd_iff, rawEndPos_ofList, utf8Len_append, Pos.Raw.mk_le_mk,
    Nat.add_le_add_iff_left, (by omega : utf8Len m + utf8Len r ≤ utf8Len m ↔ utf8Len r = 0),
    utf8Len_eq_zero, List.reverse_cons, hget, hnext, hend, hunoffset]
  split
  · subst r
    simpa using extract_of_valid l m []
  · obtain ⟨c, r, rfl⟩ := r.exists_cons_of_ne_nil ‹_›
    simp only [by
      simpa [-ofList_append] using
        (⟨get_of_valid (l ++ m) (c :: r), next_of_valid (l ++ m) c r,
            extract_of_valid l m (c :: r)⟩ :
          _ ∧ _ ∧ _)]
    split <;> rename_i h
    · obtain rfl := eq_of_beq h
      have hslash : (⟨utf8Len l + utf8Len m + Char.utf8Size '/'⟩ : Pos.Raw).unoffsetBy ⟨1⟩ =
          ⟨utf8Len l + utf8Len m⟩ := rfl
      have hextract := extract_of_valid l m ('/' :: r)
      rw [List.append_assoc] at hextract
      rw [if_pos trivial, hslash, hextract]
      simpa [Nat.add_assoc, List.splitOnPPrepend_cons_eq_if] using
        splitOnAux_slash (l ++ m ++ ['/']) [] r (ofList m :: acc)
    · simpa [List.splitOnPPrepend_cons_eq_if, h, Nat.add_assoc] using
        splitOnAux_slash l (m ++ [c]) r acc

/-- The parts of a path are the runs of characters between its slashes. -/
theorem splitOn_slash (s : String) :
    s.splitOn "/" = (s.toList.splitOnP (· == '/')).map ofList := by
  have hne : ("/" == "") = false := rfl
  rw [splitOn, hne]
  simpa using splitOnAux_slash [] [] s.toList []

/-! ### Shortest forms -/

/-- The slashes that a path keeps at its start: one or two, or none. -/
def rootOf (s : List Char) : List Char :=
  let slashes := (s.takeWhile (· == '/')).length
  if slashes = 2 then ['/', '/'] else if 0 < slashes then ['/'] else []

/-- The parts that a path keeps. -/
def partsOf (s : List Char) : List (List Char) :=
  (s.splitOnP (· == '/')).filter fun p => p != [] && p != ['.']

/-- A path with some slashes at its start and some parts. -/
def pathOf (root : List Char) (ps : List (List Char)) : List Char :=
  root ++ ['/'].intercalate ps

theorem intercalate_map_ofList (ps : List (List Char)) :
    "/".intercalate (ps.map ofList) = ofList (['/'].intercalate ps) := by
  rw [← String.toList_inj, String.toList_ofList, String.toList_intercalate, List.map_map]
  simp [Function.comp_def]

theorem bne_ofList (p q : List Char) : (ofList p != ofList q) = (p != q) := by
  rw [Bool.eq_iff_iff, bne_iff_ne, bne_iff_ne, Ne, ofList_inj]

/-- The shortest form of a path is that of its root and its parts. -/
theorem normalizePath_eq (path : String) :
    normalizePath path =
      let s := pathOf (rootOf path.toList) (partsOf path.toList)
      if s.isEmpty then "." else ofList s := by
  have hparts : ((path.splitOn "/").filter fun part => part != "" && part != ".") =
      (partsOf path.toList).map ofList := by
    rw [splitOn_slash, List.filter_map, partsOf]
    refine congrArg _ (List.filter_congr fun p _ => ?_)
    rw [Function.comp_apply, bne_ofList p [], bne_ofList p ['.']]
  have hroot : (if (path.toList.takeWhile (· == '/')).length = 2 then "//"
      else if 0 < (path.toList.takeWhile (· == '/')).length then "/" else "") =
      ofList (rootOf path.toList) := by
    rw [rootOf]
    split
    · rfl
    · split <;> rfl
  have hempty : ∀ s, (ofList s).isEmpty = s.isEmpty := fun s => by
    rw [Bool.eq_iff_iff]
    simp
  simp only [normalizePath, hparts, hroot, intercalate_map_ofList, ← ofList_append, pathOf, hempty]
  rfl

/-- Parts that stay in the shortest form of a path. -/
def AreParts (ps : List (List Char)) : Prop :=
  ∀ p ∈ ps, p ≠ [] ∧ p ≠ ['.'] ∧ '/' ∉ p

/-- There is no slash in a part. -/
theorem not_mem_of_mem_splitOnP (s : List Char) :
    ∀ p ∈ s.splitOnP (· == '/'), '/' ∉ p := by
  induction s with
  | nil => simp [List.splitOnP_nil]
  | cons c s ih =>
    rw [List.splitOnP_cons_eq_if_modifyHead]
    split
    · exact List.forall_mem_cons.2 ⟨List.not_mem_nil, ih⟩
    · next hc =>
      cases hsplit : s.splitOnP (· == '/') with
      | nil => exact nofun
      | cons p ps =>
        rw [hsplit] at ih
        have ⟨hp, hps⟩ := List.forall_mem_cons.1 ih
        refine List.forall_mem_cons.2 ⟨?_, hps⟩
        rw [List.mem_cons, not_or]
        exact ⟨fun heq => hc (beq_of_eq heq.symm), hp⟩

/-- The parts of a path are texts without slashes that are neither empty nor a point. -/
theorem areParts_partsOf (s : List Char) : AreParts (partsOf s) := by
  intro p hp
  obtain ⟨hmem, hp⟩ := List.mem_filter.1 hp
  rw [Bool.and_eq_true, bne_iff_ne, bne_iff_ne] at hp
  exact ⟨hp.1, hp.2, not_mem_of_mem_splitOnP s p hmem⟩

/-- A root that a path keeps. -/
def IsRoot (root : List Char) : Prop :=
  root = [] ∨ root = ['/'] ∨ root = ['/', '/']

/-- A path begins with no slash, one, or just two. -/
theorem isRoot_rootOf (s : List Char) : IsRoot (rootOf s) := by
  rw [rootOf, IsRoot]
  split
  · simp
  · split <;> simp

/-- No slash follows the root. -/
theorem head_intercalate_ne {ps : List (List Char)} (h : AreParts ps) :
    ∀ c, (['/'].intercalate ps).head? = some c → (c == '/') = false := by
  obtain _ | ⟨p, ps⟩ := ps
  · exact nofun
  · obtain ⟨⟨hne, _, hslash⟩, _⟩ := List.forall_mem_cons.1 h
    obtain ⟨d, p, rfl⟩ := List.exists_cons_of_ne_nil hne
    have hd : (d == '/') = false :=
      beq_false_of_ne fun heq => hslash (heq ▸ List.mem_cons_self)
    cases ps with
    | nil =>
      rintro c ⟨⟩
      exact hd
    | cons q ps =>
      rintro c ⟨⟩
      exact hd

/-- The root of a shortest form is the one that it was made of. -/
theorem rootOf_pathOf {root : List Char} {ps : List (List Char)} (hr : IsRoot root)
    (h : AreParts ps) : rootOf (pathOf root ps) = root := by
  have hslashes : ∀ c ∈ root, c == '/' := by
    rcases hr with rfl | rfl | rfl <;> simp
  rw [rootOf, pathOf, Text.takeWhile_append_of_ends hslashes (head_intercalate_ne h)]
  rcases hr with rfl | rfl | rfl <;> rfl

/-- The parts of a shortest form are those that it was made of. -/
theorem partsOf_pathOf {root : List Char} {ps : List (List Char)} (hr : IsRoot root)
    (h : AreParts ps) : partsOf (pathOf root ps) = ps := by
  have hall : ps.filter (fun p => p != [] && p != ['.']) = ps := by
    refine List.filter_eq_self.2 fun p hp => ?_
    rw [Bool.and_eq_true, bne_iff_ne, bne_iff_ne]
    exact ⟨(h p hp).1, (h p hp).2.1⟩
  have hsplit : partsOf (['/'].intercalate ps) = ps := by
    obtain rfl | hne := eq_or_ne ps []
    · rfl
    · rw [partsOf, ← List.splitOn,
        List.splitOn_intercalate '/' (fun p hp => (h p hp).2.2) hne, hall]
  have hskip : ∀ s, partsOf ('/' :: s) = partsOf s := by
    intro s
    rw [partsOf, List.splitOnP_cons_eq_if_modifyHead]
    rfl
  rcases hr with rfl | rfl | rfl
  · exact hsplit
  · rw [pathOf, List.singleton_append, hskip, hsplit]
  · rw [pathOf, List.cons_append, hskip, List.singleton_append, hskip, hsplit]

/-- What has a root and such parts is its own shortest form. -/
theorem normalizePath_pathOf {root : List Char} {ps : List (List Char)} (hr : IsRoot root)
    (h : AreParts ps) (hne : pathOf root ps ≠ []) :
    normalizePath (ofList (pathOf root ps)) = ofList (pathOf root ps) := by
  rw [normalizePath_eq, toList_ofList, rootOf_pathOf hr h, partsOf_pathOf hr h]
  exact if_neg (by simpa using hne)

/-- Text at the end of a path belongs to its last part. -/
theorem exists_intercalate_append {s : List Char} (hs : 1 < s.length) (hslash : '/' ∉ s)
    {p : List Char} {ps : List (List Char)} (h : AreParts (p :: ps)) :
    ∃ q qs, AreParts (q :: qs) ∧
      ['/'].intercalate (p :: ps) ++ s = ['/'].intercalate (q :: qs) := by
  induction ps generalizing p with
  | nil =>
    obtain ⟨⟨_, _, hp⟩, _⟩ := List.forall_mem_cons.1 h
    have hlength : 1 < (p ++ s).length := by
      rw [List.length_append]
      omega
    refine ⟨p ++ s, [], List.forall_mem_singleton.2 ⟨?_, ?_, ?_⟩, by simp⟩
    · exact List.ne_nil_of_length_pos (by omega)
    · exact ne_of_apply_ne List.length (Nat.ne_of_gt hlength)
    · rw [List.mem_append, not_or]
      exact ⟨hp, hslash⟩
  | cons p' ps ih =>
    obtain ⟨hp, hps⟩ := List.forall_mem_cons.1 h
    obtain ⟨q, qs, hqs, heq⟩ := ih hps
    refine ⟨p, q :: qs, List.forall_mem_cons.2 ⟨hp, hqs⟩, ?_⟩
    rw [List.intercalate_cons_cons, List.intercalate_cons_cons, List.append_assoc, heq]

/-- A longer name makes a shortest form of another one, with a longer last part. -/
theorem exists_pathOf_append {s : List Char} (hs : 1 < s.length) (hslash : '/' ∉ s)
    (root : List Char) {ps : List (List Char)} (h : AreParts ps) :
    ∃ ps', AreParts ps' ∧ pathOf root ps ++ s = pathOf root ps' := by
  obtain _ | ⟨p, ps⟩ := ps
  · refine ⟨[s], List.forall_mem_singleton.2 ⟨?_, ?_, hslash⟩, by simp [pathOf]⟩
    · exact List.ne_nil_of_length_pos (by omega)
    · exact ne_of_apply_ne List.length (Nat.ne_of_gt hs)
  · obtain ⟨q, qs, hqs, heq⟩ := exists_intercalate_append hs hslash h
    exact ⟨q :: qs, hqs, by rw [pathOf, List.append_assoc, heq, pathOf]⟩

/-- The path of the tree of a file is in its shortest form. -/
theorem normalizePath_treePath (path : String) :
    normalizePath (Command.treePath (normalizePath path)) =
      Command.treePath (normalizePath path) := by
  obtain ⟨root, ps, hr, hps, heq⟩ : ∃ root ps, IsRoot root ∧ AreParts ps ∧
      Command.treePath (normalizePath path) = ofList (pathOf root ps) := by
    rw [normalizePath_eq, Command.treePath]
    dsimp only
    split
    · exact ⟨[], ["..ast.json".toList], .inl rfl,
        List.forall_mem_singleton.2 (by decide), rfl⟩
    · obtain ⟨ps, hps, heq⟩ := exists_pathOf_append (s := ".ast.json".toList) (by decide)
        (by decide) (rootOf path.toList) (areParts_partsOf path.toList)
      refine ⟨rootOf path.toList, ps, isRoot_rootOf _, hps, ?_⟩
      rw [← heq, ofList_append, ofList_toList]
  have hne : pathOf root ps ≠ [] := by
    intro hnil
    rw [hnil] at heq
    have := congrArg String.length heq
    simp [Command.treePath] at this
  rw [heq, normalizePath_pathOf hr hps hne]

end Blockscript
