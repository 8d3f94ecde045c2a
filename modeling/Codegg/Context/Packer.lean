import Mathlib.Data.List.Sort
import Mathlib.Tactic

/-!
# Packing a prompt's context

Candidate blocks are sorted by tier, priority and identity and then taken in one pass.
A required block is always taken, whatever the pass has taken so far; another one only
if it still fits. Token counts are natural numbers; as long as those of all blocks together
fit a `usize`, no sum of the pass overflows.
-/
namespace Codegg.Context

inductive CacheClass where
  | stablePrefix
  | slowChanging
  | volatile
  | neverCache
  deriving DecidableEq, Repr

/-- The derived order of the tiers. -/
def CacheClass.rank : CacheClass → ℕ
  | stablePrefix => 0
  | slowChanging => 1
  | volatile => 2
  | neverCache => 3

inductive ContextBlockKind where
  | systemPrompt
  | modelProfile
  | toolDefinitions
  | projectInstructions
  | sessionFrame
  | goalContext
  | memoryContext
  | activeWorkingSet
  | userMessage
  | assistantMessage
  | toolResult
  | controlInstruction
  | todoReminder
  | artifactSummary
  deriving DecidableEq, Repr

def ContextBlockKind.tier : ContextBlockKind → CacheClass
  | systemPrompt | modelProfile | projectInstructions => .stablePrefix
  | toolDefinitions | goalContext | memoryContext => .slowChanging
  | sessionFrame | activeWorkingSet | userMessage | assistantMessage | toolResult
    | todoReminder | artifactSummary => .volatile
  | controlInstruction => .neverCache

structure ContextBlock where
  id : String
  kind : ContextBlockKind
  estimatedTokens : ℕ
  priority : ℕ
  required : Bool
  deriving DecidableEq, Repr

structure ContextPackBudget where
  maxTokens : ℕ
  reservedOutputTokens : ℕ
  emergencyMarginTokens : ℕ
  deriving DecidableEq, Repr

def ContextPackBudget.availableForContext (budget : ContextPackBudget) : ℕ :=
  budget.maxTokens - budget.reservedOutputTokens - budget.emergencyMarginTokens

inductive OmissionReason where
  | overBudget
  | lowerPriority
  | volatileOverflow
  | replacedByHandle
  deriving DecidableEq, Repr

structure OmittedContextBlock where
  id : String
  kind : ContextBlockKind
  estimatedTokens : ℕ
  reason : OmissionReason
  deriving DecidableEq, Repr

structure ContextPackResult where
  blocks : List ContextBlock
  estimatedTokens : ℕ
  omittedBlocks : List OmittedContextBlock
  stablePrefixTokens : ℕ
  volatileTokens : ℕ
  deriving DecidableEq, Repr

/-- By tier, then by falling priority, then by identity. -/
def sortKeyLe (a b : ContextBlock) : Prop :=
  a.kind.tier.rank < b.kind.tier.rank ∨
    (a.kind.tier = b.kind.tier ∧ (b.priority < a.priority ∨
      (a.priority = b.priority ∧ a.id ≤ b.id)))

instance : DecidableRel sortKeyLe := fun a b => by
  unfold sortKeyLe
  infer_instance

/-- What the pass has collected. -/
structure PackState where
  included : List ContextBlock
  omitted : List OmittedContextBlock
  totalTokens : ℕ
  deriving DecidableEq, Repr

namespace PackState

def empty : PackState := ⟨[], [], 0⟩

def take (s : PackState) (block : ContextBlock) : PackState where
  included := s.included ++ [block]
  omitted := s.omitted
  totalTokens := s.totalTokens + block.estimatedTokens

def leave (s : PackState) (block : ContextBlock) (reason : OmissionReason) : PackState where
  included := s.included
  omitted := s.omitted ++ [⟨block.id, block.kind, block.estimatedTokens, reason⟩]
  totalTokens := s.totalTokens

end PackState

/-- One turn of the loop. -/
def packBlock (available : ℕ) (s : PackState) (block : ContextBlock) : PackState :=
  if block.required then s.take block
  else if block.kind.tier = .neverCache ∧ ¬block.required then s.leave block .overBudget
  else if block.kind.tier = .volatile ∧ block.priority < 10 ∧ ¬block.required ∧
      available < s.totalTokens + block.estimatedTokens then s.leave block .lowerPriority
  else if available < s.totalTokens + block.estimatedTokens then s.leave block .overBudget
  else s.take block

def packBlocks (available : ℕ) (blocks : List ContextBlock) : PackState :=
  blocks.foldl (packBlock available) .empty

def sorted (blocks : List ContextBlock) : List ContextBlock := blocks.insertionSort sortKeyLe

def tokens (blocks : List ContextBlock) : ℕ := (blocks.map (·.estimatedTokens)).sum

def tierTokens (tier : CacheClass) (blocks : List ContextBlock) : ℕ :=
  tokens (blocks.filter fun b => decide (b.kind.tier = tier))

def pack (blocks : List ContextBlock) (budget : ContextPackBudget) : ContextPackResult :=
  let s := packBlocks budget.availableForContext (sorted blocks)
  ⟨s.included, s.totalTokens, s.omitted, tierTokens .stablePrefix s.included,
    tierTokens .volatile s.included⟩

/-! ### One turn -/

variable {s : PackState} {blocks : List ContextBlock}

section

variable {available : ℕ}

variable (available) in
/-- A block is taken, as it is required or fits, or left for some reason. -/
theorem packBlock_cases (s : PackState) (block : ContextBlock) :
    (packBlock available s block = s.take block ∧
      (block.required = true ∨ s.totalTokens + block.estimatedTokens ≤ available)) ∨
    (block.required = false ∧ ∃ reason, packBlock available s block = s.leave block reason) := by
  unfold packBlock
  by_cases hrequired : block.required = true
  · exact .inl ⟨if_pos hrequired, .inl hrequired⟩
  · have hoptional : block.required = false := by simpa using hrequired
    rw [if_neg hrequired]
    repeat' split
    · exact .inr ⟨hoptional, _, rfl⟩
    · exact .inr ⟨hoptional, _, rfl⟩
    · exact .inr ⟨hoptional, _, rfl⟩
    · rename_i hfits
      exact .inl ⟨rfl, .inr (not_lt.mp hfits)⟩

theorem packBlock_required {block : ContextBlock} (h : block.required = true) :
    packBlock available s block = s.take block := if_pos h

theorem packBlocks_snoc (blocks : List ContextBlock) (block : ContextBlock) :
    packBlocks available (blocks ++ [block]) =
      packBlock available (packBlocks available blocks) block := by
  simp [packBlocks]

/-! ### The whole pass -/

/-- What the pass holds is what it has been given: every block is included or reported as
omitted, the required ones are included, and the total is that of what is included. -/
structure Sorts (blocks : List ContextBlock) (s : PackState) : Prop where
  parts : ∃ left, (s.included ++ left).Perm blocks ∧
    s.omitted.map (fun o => (o.id, o.kind, o.estimatedTokens)) =
      left.map fun b => (b.id, b.kind, b.estimatedTokens)
  required : ∀ b ∈ blocks, b.required = true → b ∈ s.included
  total : s.totalTokens = tokens s.included

theorem Sorts.take (h : Sorts blocks s) (block : ContextBlock) :
    Sorts (blocks ++ [block]) (s.take block) where
  parts := by
    obtain ⟨left, hperm, homitted⟩ := h.parts
    refine ⟨left, ?_, homitted⟩
    rw [PackState.take, List.append_assoc]
    exact (List.perm_append_comm.append_left s.included).trans
      ((List.append_assoc _ _ _).symm ▸ hperm.append_right [block])
  required b hb hrequired := by
    rcases List.mem_append.mp hb with hb | hb
    · exact List.mem_append_left _ (h.required b hb hrequired)
    · exact List.mem_append_right _ hb
  total := by simp [PackState.take, tokens, h.total]

theorem Sorts.leave (h : Sorts blocks s) {block : ContextBlock} (hoptional : block.required = false)
    (reason : OmissionReason) :
    Sorts (blocks ++ [block]) (s.leave block reason) where
  parts := by
    obtain ⟨left, hperm, homitted⟩ := h.parts
    refine ⟨left ++ [block], ?_, ?_⟩
    · rw [← List.append_assoc]
      exact hperm.append_right [block]
    · simp [PackState.leave, homitted]
  required b hb hrequired := by
    rcases List.mem_append.mp hb with hb | hb
    · exact h.required b hb hrequired
    · rw [List.mem_singleton.mp hb, hoptional] at hrequired
      cases hrequired
  total := h.total

variable (available) in
theorem packBlocks_sorts (blocks : List ContextBlock) :
    Sorts blocks (packBlocks available blocks) := by
  induction blocks using List.reverseRecOn with
  | nil => exact ⟨⟨[], List.Perm.nil, rfl⟩, (fun b hb => nomatch hb), rfl⟩
  | append_singleton blocks block ih =>
    rw [packBlocks_snoc]
    rcases packBlock_cases available (packBlocks available blocks) block with
      ⟨htake, -⟩ | ⟨hoptional, reason, hleave⟩
    · rw [htake]
      exact ih.take block
    · rw [hleave]
      exact ih.leave hoptional reason

variable (available) in
/-- The total only grows. -/
theorem totalTokens_le_append (blocks later : List ContextBlock) :
    (packBlocks available blocks).totalTokens ≤
      (packBlocks available (blocks ++ later)).totalTokens := by
  induction later using List.reverseRecOn with
  | nil => simp
  | append_singleton later block ih =>
    rw [← List.append_assoc, packBlocks_snoc]
    rcases packBlock_cases available (packBlocks available (blocks ++ later)) block
      with ⟨htake, -⟩ | ⟨-, reason, hleave⟩
    · rw [htake]
      exact ih.trans (Nat.le_add_right _ _)
    · rw [hleave]
      exact ih

/-- Each required block finds room for itself when the pass comes to it. -/
def RoomForRequired (available : ℕ) (blocks : List ContextBlock) : Prop :=
  ∀ before block after, blocks = before ++ block :: after → block.required = true →
    (packBlocks available before).totalTokens + block.estimatedTokens ≤ available

theorem RoomForRequired.of_prefix {later : List ContextBlock}
    (h : RoomForRequired available (blocks ++ later)) : RoomForRequired available blocks := by
  intro before block after heq
  exact h before block (after ++ later) (by rw [heq]; simp)

/-- Only a required block can take the total past the budget. -/
theorem totalTokens_le_iff (blocks : List ContextBlock) :
    (packBlocks available blocks).totalTokens ≤ available ↔ RoomForRequired available blocks := by
  constructor
  · rintro hfits before block after rfl hrequired
    have hgrows := totalTokens_le_append available (before ++ [block]) after
    rw [packBlocks_snoc, packBlock_required hrequired, List.append_assoc] at hgrows
    exact hgrows.trans hfits
  · intro hroom
    induction blocks using List.reverseRecOn with
    | nil => exact Nat.zero_le _
    | append_singleton blocks block ih =>
      rw [packBlocks_snoc]
      rcases packBlock_cases available (packBlocks available blocks) block with
        ⟨htake, hrequired | hfits⟩ | ⟨-, reason, hleave⟩
      · rw [htake]
        exact hroom blocks block [] rfl hrequired
      · rw [htake]
        exact hfits
      · rw [hleave]
        exact ih hroom.of_prefix

/-- Blocks that are required or never cached: of these the pass takes the required ones. -/
theorem totalTokens_of_required (h : ∀ b ∈ blocks, b.required = true ∨ b.kind.tier = .neverCache) :
    (packBlocks available blocks).totalTokens = tokens (blocks.filter (·.required)) := by
  induction blocks using List.reverseRecOn with
  | nil => rfl
  | append_singleton blocks block ih =>
    have hbefore := ih fun b hb => h b (List.mem_append_left _ hb)
    rw [packBlocks_snoc]
    by_cases hrequired : block.required = true
    · rw [packBlock_required hrequired, PackState.take, hbefore]
      simp [hrequired, tokens]
    · have hnever := (h block (by simp)).resolve_left hrequired
      rw [packBlock, if_neg hrequired, if_pos ⟨hnever, hrequired⟩, PackState.leave, hbefore]
      simp [hrequired]

variable (available) in
/-- Where the counts of all blocks fit a word together, so does every sum of the pass. -/
theorem pack_no_overflow (hword : tokens blocks < 2 ^ 64) {before after : List ContextBlock}
    {block : ContextBlock} (hsplit : sorted blocks = before ++ block :: after) :
    (packBlocks available before).totalTokens + block.estimatedTokens < 2 ^ 64 := by
  obtain ⟨left, hperm, -⟩ := (packBlocks_sorts available before).parts
  have hall : tokens (sorted blocks) = tokens blocks :=
    ((List.perm_insertionSort sortKeyLe blocks).map _).sum_eq
  have hbefore : tokens ((packBlocks available before).included ++ left) = tokens before :=
    (hperm.map _).sum_eq
  rw [hsplit] at hall
  rw [(packBlocks_sorts available before).total]
  simp only [tokens, List.map_append, List.map_cons, List.sum_append, List.sum_cons]
    at hall hbefore hword ⊢
  omega

/-- No block that could be taken for its size comes before a required one. -/
def RequiredFirst (blocks : List ContextBlock) : Prop :=
  ∀ before block after, blocks = before ++ block :: after → block.required = true →
    ∀ b ∈ before, b.required = true ∨ b.kind.tier = .neverCache

theorem RequiredFirst.roomForRequired (h : RequiredFirst blocks)
    (hfits : tokens (blocks.filter (·.required)) ≤ available) :
    RoomForRequired available blocks := by
  rintro before block after rfl hrequired
  rw [totalTokens_of_required (h before block after rfl hrequired)]
  simp only [tokens, List.filter_append, List.filter_cons_of_pos hrequired, List.map_append,
    List.map_cons, List.sum_append, List.sum_cons] at hfits ⊢
  omega

end

/-- What `pack` guarantees. -/
structure Packed (blocks : List ContextBlock) (budget : ContextPackBudget)
    (result : ContextPackResult) : Prop where
  /-- The included blocks, and those that the omitted entries describe. -/
  parts : ∃ left, (result.blocks ++ left).Perm blocks ∧
    result.omittedBlocks.map (fun o => (o.id, o.kind, o.estimatedTokens)) =
      left.map fun b => (b.id, b.kind, b.estimatedTokens)
  required : ∀ b ∈ blocks, b.required = true → b ∈ result.blocks
  estimated : result.estimatedTokens = tokens result.blocks
  stablePrefix : result.stablePrefixTokens = tierTokens .stablePrefix result.blocks
  volatile : result.volatileTokens = tierTokens .volatile result.blocks
  fits : tokens result.blocks ≤ budget.availableForContext ↔
    RoomForRequired budget.availableForContext (sorted blocks)
  requiredFirst : RequiredFirst (sorted blocks) →
    tokens (blocks.filter (·.required)) ≤ budget.availableForContext →
      tokens result.blocks ≤ budget.availableForContext

theorem pack_packed (blocks : List ContextBlock) (budget : ContextPackBudget) :
    Packed blocks budget (pack blocks budget) := by
  have hperm : (sorted blocks).Perm blocks := List.perm_insertionSort _ blocks
  have hsorts := packBlocks_sorts budget.availableForContext (sorted blocks)
  obtain ⟨left, hparts, homitted⟩ := hsorts.parts
  have hfits : tokens (pack blocks budget).blocks ≤ budget.availableForContext ↔
      RoomForRequired budget.availableForContext (sorted blocks) := by
    rw [← totalTokens_le_iff, hsorts.total]
    rfl
  refine ⟨⟨left, hparts.trans hperm, homitted⟩, ?_, hsorts.total, rfl, rfl, hfits, ?_⟩
  · intro b hb hrequired
    exact hsorts.required b (hperm.mem_iff.mpr hb) hrequired
  · intro hfirst hrequired
    refine hfits.mpr (hfirst.roomForRequired (le_of_eq_of_le ?_ hrequired))
    exact ((hperm.filter _).map _).sum_eq

/-- An optional block that comes first takes the room of a required one. -/
def optionalFirst : List ContextBlock :=
  [⟨"a", .systemPrompt, 60, 50, false⟩, ⟨"b", .controlInstruction, 60, 50, true⟩]

theorem pack_over_budget :
    tokens (optionalFirst.filter (·.required)) ≤
        (ContextPackBudget.mk 100 0 0).availableForContext ∧
      ¬tokens (pack optionalFirst ⟨100, 0, 0⟩).blocks ≤
        (ContextPackBudget.mk 100 0 0).availableForContext := by
  decide

end Codegg.Context
