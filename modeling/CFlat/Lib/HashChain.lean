import Mathlib.Data.List.Induction

/-!
# HashChain — folding a list of ids into a digest

A chain folds ids one after another into a digest, starting from a fixed zero digest.  Under the
usual idealisation of a hash function (no two inputs collide, the zero digest is never produced)
a chain determines the list it was built from, of whatever length; without it, two chains that meet
exhibit the inputs at which it fails (`eq_or_collides`).

The digests form an arbitrary type here: the idealisation cannot hold of digests of bounded size,
and it does hold of the free digests `List K`, where a digest is the list of ids it absorbed.
-/

namespace CFlat
namespace Lib

variable {D K : Type*}

/-- The idealisation of a hash function `H` with the start value `z`. -/
structure CollisionFree (H : D → K → D) (z : D) : Prop where
  inj : ∀ {h h' : D} {k k' : K}, H h k = H h' k' → h = h' ∧ k = k'
  ne_start : ∀ (h : D) (k : K), H h k ≠ z

/-- The digest of a list of ids. -/
def chain (H : D → K → D) (z : D) (ks : List K) : D := ks.foldl H z

@[simp] theorem chain_nil (H : D → K → D) (z : D) : chain H z [] = z := rfl

@[simp] theorem chain_append (H : D → K → D) (z : D) (ks ls : List K) :
    chain H z (ks ++ ls) = ls.foldl H (chain H z ks) := List.foldl_append

theorem chain_concat (H : D → K → D) (z : D) (ks : List K) (k : K) :
    chain H z (ks ++ [k]) = H (chain H z ks) k := by
  simp

/-- A chain determines its list.  The induction peels both lists from the end; the start value is
never a digest, so two chains of different lengths cannot meet. -/
theorem CollisionFree.chain_injective {H : D → K → D} {z : D} (hH : CollisionFree H z) :
    Function.Injective (chain H z) := by
  intro ks
  induction ks using List.reverseRecOn with
  | nil =>
      intro ls heq
      induction ls using List.reverseRecOn with
      | nil => rfl
      | append_singleton ls l _ =>
          rw [chain_concat, chain_nil] at heq
          exact absurd heq.symm (hH.ne_start _ _)
  | append_singleton ks k ih =>
      intro ls heq
      induction ls using List.reverseRecOn with
      | nil =>
          rw [chain_concat, chain_nil] at heq
          exact absurd heq (hH.ne_start _ _)
      | append_singleton ls l _ =>
          rw [chain_concat, chain_concat] at heq
          rcases hH.inj heq with ⟨hchain, rfl⟩
          rw [ih hchain]

/-- The free digests are collision free. -/
theorem collisionFree_free : CollisionFree (fun (h : List K) k => h ++ [k]) [] where
  inj := by
    intro h h' k k' heq
    rcases List.append_inj' heq rfl with ⟨hinit, hlast⟩
    exact ⟨hinit, List.singleton_inj.1 hlast⟩
  ne_start := by
    intro h k
    simp

/-! ## Chains that meet -/

/-- Lists that meet under a map are one list if the map tells their elements apart. -/
theorem eq_of_map_eq {α β : Type*} {f : α → β} {l₁ l₂ : List α}
    (hf : ∀ x ∈ l₁, ∀ y ∈ l₂, f x = f y → x = y) (h : l₁.map f = l₂.map f) : l₁ = l₂ := by
  induction l₁ generalizing l₂ with
  | nil => exact (List.map_eq_nil_iff.1 h.symm).symm
  | cons x xs ih =>
      cases l₂ with
      | nil => cases h
      | cons y ys =>
          rcases List.cons.inj h with ⟨hx, hxs⟩
          have hrest : xs = ys := ih (fun x' hx' y' hy' =>
            hf x' (List.mem_cons_of_mem _ hx') y' (List.mem_cons_of_mem _ hy')) hxs
          rw [hf x List.mem_cons_self y List.mem_cons_self hx, hrest]

/-- The inputs of `H` that a chain absorbs, oldest first. -/
def absorbed (H : D → K → D) : D → List K → List (D × K)
  | _, [] => []
  | z, k :: ks => (z, k) :: absorbed H (H z k) ks

theorem absorbed_concat (H : D → K → D) (z : D) (ks : List K) (k : K) :
    absorbed H z (ks ++ [k]) = absorbed H z ks ++ [(chain H z ks, k)] := by
  induction ks generalizing z with
  | nil => rfl
  | cons k' ks ih =>
      rw [List.cons_append, absorbed, absorbed, ih]
      rfl

theorem mem_absorbed_concat (H : D → K → D) (z : D) (ks : List K) (k : K) :
    (chain H z ks, k) ∈ absorbed H z (ks ++ [k]) := by
  rw [absorbed_concat]
  exact List.mem_append_right _ List.mem_cons_self

/-- Two lists of absorbed inputs between which the idealisation fails. -/
def Collides (H : D → K → D) (z : D) (xs ys : List (D × K)) : Prop :=
  (∃ x ∈ xs, ∃ y ∈ ys, x ≠ y ∧ H x.1 x.2 = H y.1 y.2) ∨ ∃ x ∈ xs ++ ys, H x.1 x.2 = z

theorem Collides.mono {H : D → K → D} {z : D} {xs ys xs' ys' : List (D × K)}
    (h : Collides H z xs ys) (hxs : xs ⊆ xs') (hys : ys ⊆ ys') : Collides H z xs' ys' := by
  rcases h with ⟨x, hx, y, hy, hne, heq⟩ | ⟨x, hx, heq⟩
  · exact .inl ⟨x, hxs hx, y, hys hy, hne, heq⟩
  · refine .inr ⟨x, ?_, heq⟩
    rcases List.mem_append.1 hx with hx | hx
    · exact List.mem_append_left _ (hxs hx)
    · exact List.mem_append_right _ (hys hx)

/-- Of any hash function: chains of different lists that meet exhibit inputs at which the
idealisation fails, among those that they have absorbed. -/
theorem eq_or_collides (H : D → K → D) (z : D) {ks ls : List K} (h : chain H z ks = chain H z ls) :
    ks = ls ∨ Collides H z (absorbed H z ks) (absorbed H z ls) := by
  induction ks using List.reverseRecOn generalizing ls with
  | nil =>
      induction ls using List.reverseRecOn with
      | nil => exact .inl rfl
      | append_singleton ls l _ =>
          rw [chain_concat, chain_nil] at h
          exact .inr (.inr ⟨_, mem_absorbed_concat H z ls l, h.symm⟩)
  | append_singleton ks k ih =>
      induction ls using List.reverseRecOn with
      | nil =>
          rw [chain_concat, chain_nil] at h
          exact .inr (.inr ⟨_, List.mem_append_left _ (mem_absorbed_concat H z ks k), h⟩)
      | append_singleton ls l _ =>
          rw [chain_concat, chain_concat] at h
          by_cases hinput : (chain H z ks, k) = (chain H z ls, l)
          · rcases Prod.mk.inj hinput with ⟨hchain, rfl⟩
            rcases ih hchain with rfl | hcollides
            · exact .inl rfl
            · rw [absorbed_concat, absorbed_concat]
              exact .inr (hcollides.mono (List.subset_append_left _ _)
                (List.subset_append_left _ _))
          · exact .inr (.inl ⟨_, mem_absorbed_concat H z ks k, _, mem_absorbed_concat H z ls l,
              hinput, h⟩)

end Lib
end CFlat
