import Mathlib

/-!
# Lineages

Blocks name their parent and state a height. The lineage of a tip is the path from an anchor to
it, with heights that count on from the anchor's.

- `Lineage.unique`: a tip has one lineage.
- `Lineage.mono`: more blocks change no lineage.
- `Lineage.mem_of_shared`: two lineages that share a block share everything below it.
-/

namespace Consensus

variable {H : Type*}

/-- The path from the anchor, which stands at the base height, to a tip: the heights and the
blocks, oldest first. -/
inductive Lineage (links : H → Option (Int × H)) (anchor : H) (base : Int) :
    List (Int × H) → H → Prop
  | anchor : Lineage links anchor base [] anchor
  | extend {chain : List (Int × H)} {parent tip : H} : Lineage links anchor base chain parent →
      tip ≠ anchor → links tip = some (base + chain.length + 1, parent) →
      Lineage links anchor base (chain ++ [(base + chain.length + 1, tip)]) tip

namespace Lineage

variable {links links' : H → Option (Int × H)} {anchor : H} {base : Int}
  {chain chain' : List (Int × H)} {tip tip' : H}

theorem nil_iff (h : Lineage links anchor base chain tip) : chain = [] ↔ tip = anchor := by
  cases h with
  | anchor => simp
  | extend hrest hne hlink => simp [hne]

/-- A tip has one lineage. -/
theorem unique (h : Lineage links anchor base chain tip)
    (h' : Lineage links anchor base chain' tip) : chain = chain' := by
  induction h generalizing chain' with
  | anchor => exact (h'.nil_iff.mpr rfl).symm
  | extend hrest hne hlink ih =>
    cases h' with
    | anchor => exact absurd rfl hne
    | extend hrest' hne' hlink' =>
      obtain ⟨hheight, rfl⟩ := Prod.mk.inj (Option.some.inj (hlink.symm.trans hlink'))
      rw [ih hrest']

/-- Further blocks leave the lineage of a tip as it is. -/
theorem mono (hlinks : ∀ x l, links x = some l → links' x = some l)
    (h : Lineage links anchor base chain tip) : Lineage links' anchor base chain tip := by
  induction h with
  | anchor => exact .anchor
  | extend _ hne hlink ih => exact .extend ih hne (hlinks _ _ hlink)

/-- The heights count on from the base. -/
theorem heights (h : Lineage links anchor base chain tip) :
    chain.map Prod.fst = (List.range chain.length).map fun (i : Nat) => base + i + 1 := by
  induction h with
  | anchor => rfl
  | extend _ _ _ ih =>
    rw [List.map_append, ih, List.length_append, List.length_singleton, List.range_succ,
      List.map_append]
    rfl

theorem height_bounds (h : Lineage links anchor base chain tip) {e : Int × H} (he : e ∈ chain) :
    base < e.1 ∧ e.1 ≤ base + chain.length := by
  have hmem : e.1 ∈ chain.map Prod.fst := List.mem_map_of_mem he
  rw [h.heights, List.mem_map] at hmem
  obtain ⟨i, hi, heq⟩ := hmem
  have hlt := List.mem_range.mp hi
  constructor <;> omega

/-- The heights ascend. -/
theorem pairwise_lt (h : Lineage links anchor base chain tip) :
    chain.Pairwise fun a b => a.1 < b.1 := by
  induction h with
  | anchor => exact List.Pairwise.nil
  | extend hrest hne hlink ih =>
    refine List.pairwise_append.mpr ⟨ih, List.pairwise_singleton _ _, ?_⟩
    intro a ha b hb
    obtain rfl := List.mem_singleton.mp hb
    exact Int.lt_add_one_of_le (hrest.height_bounds ha).2

/-- One block stands at a height. -/
theorem eq_of_height (h : Lineage links anchor base chain tip) {a b : Int × H} (ha : a ∈ chain)
    (hb : b ∈ chain) (heq : a.1 = b.1) : a = b := by
  have hnodup : (chain.map Prod.fst).Nodup :=
    List.pairwise_map.mpr (h.pairwise_lt.imp fun hlt => Int.ne_of_lt hlt)
  exact List.inj_on_of_nodup_map hnodup ha hb heq

/-- A block of a lineage has the first part as its own. -/
theorem prefix_of_mem (h : Lineage links anchor base chain tip) {e : Int × H} (he : e ∈ chain) :
    ∃ pre, pre <+: chain ∧ Lineage links anchor base pre e.2 ∧ e.1 = base + pre.length ∧
      pre ≠ [] := by
  induction h with
  | anchor => cases he
  | @extend rest parent tip hrest hne hlink ih =>
    obtain he | he := List.mem_append.mp he
    · obtain ⟨pre, hpre, hlineage⟩ := ih he
      exact ⟨pre, hpre.trans (List.prefix_append _ _), hlineage⟩
    · obtain rfl := List.mem_singleton.mp he
      refine ⟨_, List.prefix_rfl, .extend hrest hne hlink, ?_, by simp⟩
      rw [List.length_append, List.length_singleton]
      omega

/-- A block of a lineage is linked, and is not the anchor. -/
theorem link_of_mem (h : Lineage links anchor base chain tip) {e : Int × H} (he : e ∈ chain) :
    e.2 ≠ anchor ∧ ∃ parent, links e.2 = some (e.1, parent) := by
  induction h with
  | anchor => cases he
  | extend hrest hne hlink ih =>
    obtain he | he := List.mem_append.mp he
    · exact ih he
    · obtain rfl := List.mem_singleton.mp he
      exact ⟨hne, _, hlink⟩

theorem nodup_blocks (h : Lineage links anchor base chain tip) : (chain.map Prod.snd).Nodup := by
  refine List.Nodup.map_on ?_
    (h.pairwise_lt.imp fun hlt heq => Int.ne_of_lt hlt (congrArg Prod.fst heq))
  intro a ha b hb heq
  obtain ⟨-, parent, hlink⟩ := h.link_of_mem ha
  obtain ⟨-, parent', hlink'⟩ := h.link_of_mem hb
  rw [heq, hlink'] at hlink
  exact Prod.ext (Prod.mk.inj (Option.some.inj hlink)).1.symm heq

/-- Two lineages that share a block share what is below it. -/
theorem mem_of_shared (h : Lineage links anchor base chain tip) (h' : Lineage links anchor base chain' tip')
    {e : Int × H} (he : e ∈ chain) (he' : e ∈ chain') {x : Int × H} (hx : x ∈ chain)
    (hle : x.1 ≤ e.1) : x ∈ chain' := by
  obtain ⟨pre, hpre, hlineage, hheight, hnonempty⟩ := h.prefix_of_mem he
  obtain ⟨pre', hpre', hlineage', -⟩ := h'.prefix_of_mem he'
  obtain rfl := hlineage.unique hlineage'
  refine hpre'.subset ?_
  -- what is not in the first part stands above it
  obtain ⟨suffix, rfl⟩ := hpre
  obtain hx | hx := List.mem_append.mp hx
  · exact hx
  · obtain hlast : ∃ y ∈ pre, y.1 = e.1 := by
      have hmem : e.1 ∈ pre.map Prod.fst := by
        rw [hlineage.heights, List.mem_map]
        have hpos : 0 < pre.length := List.length_pos_of_ne_nil hnonempty
        exact ⟨pre.length - 1, List.mem_range.mpr (by omega), by omega⟩
      obtain ⟨y, hy, heq⟩ := List.mem_map.mp hmem
      exact ⟨y, hy, heq⟩
    obtain ⟨y, hy, heq⟩ := hlast
    have hlt := (List.pairwise_append.mp h.pairwise_lt).2.2 y hy x hx
    omega

/-- The last block of a lineage is its tip. -/
theorem getLast? (h : Lineage links anchor base chain tip) (hne : tip ≠ anchor) :
    chain.getLast?.map Prod.snd = some tip := by
  cases h with
  | anchor => exact absurd rfl hne
  | extend => simp

end Lineage

end Consensus
