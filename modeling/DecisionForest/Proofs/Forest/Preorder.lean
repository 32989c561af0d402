import DecisionForest.Proofs.Forest.Reachable

/-!
# The stack of a traversal and the calls it stands for

The pre-order of a graph is defined by recursion: a position that is not seen yet comes first, then
for each of its branches what the yes side adds and what the no side adds, with all that has been
listed by then counted as seen. `Forest.preorderFrom` makes no calls; it puts targets on a stack and
only looks at their marks when it takes them off. A stack stands for the calls that are still to be
made, the innermost first.

- `Forest.preorderAt` and `Forest.preorderOver` are the recursion on positions and on branches,
- `Forest.marksOf` are the marks of the positions seen,
- `Forest.listsFirst_preorderAt` makes the call of what is on top of a stack,
- `Forest.reachable_exact` says what follows for the positions that the root reaches.
-/

namespace DecisionForest
namespace Forest

variable (F : Forest)

/-! ## The recursion -/

section Recursion

variable {n : Nat} {seen : Finset (Fin n)}

theorem card_compl_insert_lt {i : Fin n} (h : i ∉ seen) : (insert i seen)ᶜ.card < seenᶜ.card :=
  Finset.card_lt_card (Finset.compl_ssubset_compl.2 (Finset.ssubset_insert h))

theorem card_compl_union_le (seen more : Finset (Fin n)) : (seen ∪ more)ᶜ.card ≤ seenᶜ.card :=
  Finset.card_le_card (Finset.compl_subset_compl.2 Finset.subset_union_left)

end Recursion

mutual

/-- What is listed from a position on when some positions have been seen before. -/
def preorderAt (seen : Finset (Fin F.size)) (i : Fin F.size) : List (Fin F.size) :=
  if i ∈ seen then [] else i :: preorderOver (insert i seen) (F.node i).branches
termination_by (seenᶜ.card, 0)
decreasing_by
  exact Prod.Lex.left _ _ (card_compl_insert_lt ‹_›)

/-- What is listed along branches, the first one first; what is listed has been seen. -/
def preorderOver (seen : Finset (Fin F.size)) :
    List (Branch (Fin F.size)) → List (Fin F.size)
  | [] => []
  | b :: rest =>
    let yes := preorderAt seen b.yes
    let no := preorderAt (seen ∪ yes.toFinset) b.no
    yes ++ no ++ preorderOver (seen ∪ yes.toFinset ∪ no.toFinset) rest
termination_by branches => (seenᶜ.card, branches.length + 1)
decreasing_by
  · exact Prod.Lex.right _ (Nat.succ_pos _)
  · exact Prod.Lex.right' _ (card_compl_union_le _ _) (Nat.succ_pos _)
  · refine Prod.Lex.right' _ ?_ (by simp)
    rw [Finset.union_assoc]
    exact card_compl_union_le _ _

end

/-! ## Marks and stacks -/

/-- The marks of the positions that have been seen. -/
def marksOf (seen : Finset (Fin F.size)) : Vector Bool F.size :=
  Vector.ofFn fun i => decide (i ∈ seen)

variable {F} {seen : Finset (Fin F.size)} {i : Fin F.size}

theorem mark_marksOf : (F.marksOf seen).get i = decide (i ∈ seen) :=
  Vector.getElem_ofFn i.isLt

theorem marksOf_empty : F.marksOf ∅ = Vector.replicate F.size false := by
  apply Vector.ext
  intro k hk
  simp [marksOf]

theorem marksOf_insert (i : Fin F.size) :
    (F.marksOf seen).set i true i.isLt = F.marksOf (insert i seen) := by
  apply Vector.ext
  intro k hk
  by_cases hki : i.val = k
  · subst hki
    simp [marksOf]
  · have hne : (⟨k, hk⟩ : Fin F.size) ≠ i := fun heq => hki (congrArg Fin.val heq).symm
    simp [marksOf, hki, hne]

/-! ## Calls on a stack -/

/-- A traversal lists these positions for the top of its stack, whatever lies below. -/
def ListsFirst (seen : Finset (Fin F.size)) (top listed : List (Fin F.size)) : Prop :=
  ∀ stack, F.preorderFrom (F.marksOf seen) (top ++ stack) =
    listed ++ F.preorderFrom (F.marksOf (seen ∪ listed.toFinset)) stack

namespace ListsFirst

variable {top top' listed listed' : List (Fin F.size)}

theorem nil : ListsFirst seen [] [] := by
  intro stack
  simp

/-- What is listed for the first part has been seen when the second part is taken up. -/
theorem append (h : ListsFirst seen top listed)
    (h' : ListsFirst (seen ∪ listed.toFinset) top' listed') :
    ListsFirst seen (top ++ top') (listed ++ listed') := by
  intro stack
  rw [List.append_assoc, h, h', List.toFinset_append, Finset.union_assoc, List.append_assoc]

theorem old (h : i ∈ seen) : ListsFirst seen [i] [] := by
  intro stack
  have hmark : (F.marksOf seen)[i] = true := mark_marksOf.trans (decide_eq_true h)
  rw [List.singleton_append, preorderFrom, dif_pos hmark]
  simp

theorem new (h : i ∉ seen) (hbelow : ListsFirst (insert i seen) (F.targets i) listed) :
    ListsFirst seen [i] (i :: listed) := by
  intro stack
  have hmark : (F.marksOf seen)[i] = false := mark_marksOf.trans (decide_eq_false h)
  rw [List.singleton_append, preorderFrom, dif_neg (by simp [hmark]), marksOf_insert, hbelow,
    List.toFinset_cons, Finset.union_insert, Finset.insert_union]
  rfl

end ListsFirst

/-- The position of a call stands on the stack, and so do the targets of the branches that a call
still has to go along. -/
theorem listsFirst_preorderAt (F : Forest) :
    (∀ seen i, ListsFirst seen [i] (F.preorderAt seen i)) ∧
      ∀ seen branches,
        ListsFirst seen (branches.flatMap Branch.targets) (F.preorderOver seen branches) := by
  -- One case for each equation of the recursion.
  apply preorderAt.mutual_induct
  · intro seen i hseen
    rw [preorderAt, if_pos hseen]
    exact .old hseen
  · intro seen i hnew hbelow
    rw [preorderAt, if_neg hnew]
    exact .new hnew hbelow
  · intro seen
    rw [preorderOver]
    exact .nil
  · intro seen b rest yes no hyes hno _ hrest
    have hsides : ListsFirst seen ([b.yes] ++ [b.no]) (yes ++ no) := hyes.append hno
    rw [preorderOver]
    refine hsides.append ?_
    rw [List.toFinset_append, ← Finset.union_assoc]
    exact hrest

/-! ## The positions that the root reaches -/

theorem reachable_eq_preorderAt : F.reachable = F.preorderAt ∅ F.root := by
  have hroot := F.listsFirst_preorderAt.1 ∅ F.root []
  rw [reachable, ← marksOf_empty]
  simpa [preorderFrom] using hroot

/-- The traversal on a stack is the recursive pre-order from the root with no position seen before.
It starts with the root, lists no position twice, and lists exactly the positions that some chain of
branches leads to from the root, so at most all of them. -/
theorem reachable_exact (F : Forest) :
    F.reachable = F.preorderAt ∅ F.root ∧
      (∃ rest, F.reachable = F.root :: rest) ∧
      F.reachable.Nodup ∧
      (∀ i, i ∈ F.reachable ↔ F.Reaches F.root i) ∧
      F.reachable.length ≤ F.size := by
  refine ⟨reachable_eq_preorderAt, reachable_eq_cons, nodup_reachable, ?_, length_reachable_le⟩
  intro i
  exact mem_reachable_iff

end Forest
end DecisionForest
