import PostCortex.Memory.ContextAssembly

/-!
# Token budgets

The cards and the sections of the graph are always part of an assembled context; the
records and the excerpts are packed into what they leave of the budget.  The text is
longer than what is counted by its headers and separators only.
-/

namespace PostCortex
namespace Memory

open PostCortex.Core
open PostCortex.Graph
open PostCortex.Parsing
open PostCortex.Search
open PostCortex.Storage.Cards

theorem size_le_estimate (text : String) : text.utf8ByteSize ≤ 4 * estimateTokens text := by
  unfold estimateTokens
  omega

theorem estimate_le {text : String} {tokens bytes : Nat}
    (h : text.utf8ByteSize ≤ 4 * tokens + bytes) :
    estimateTokens text ≤ tokens + (bytes + 3) / 4 := by
  unfold estimateTokens
  omega

section

variable {score : Type}

/-!
# What is counted
-/

def cardCost (card : Card) : Nat :=
  estimateTokens card.text + 8

/-- The tokens of a context are those of its items, its sections and its cards. -/
structure Counted (ctx : AssembledContext score) : Prop where
  total : ctx.totalTokens =
    costOf ContextItem.tokenEstimate ctx.items +
      graphSectionTokens ctx.entityContext ctx.impact + costOf cardCost ctx.cards
  estimates : forall item, item ∈ ctx.items -> item.tokenEstimate = estimateTokens item.text

variable {ctx : AssembledContext score}

theorem Counted.addExcerpts (h : Counted ctx) {excerpts : List (ContextItem score)}
    (hexcerpts : forall item, item ∈ excerpts ->
      item.tokenEstimate = estimateTokens item.text) (tokenBudget : Nat) :
    Counted (addExcerpts ctx excerpts tokenBudget) where
  total := by
    have htotal := h.total
    simp only [Memory.addExcerpts, costOf_append]
    omega
  estimates := by
    intro item hitem
    rcases List.mem_append.mp hitem with hold | hnew
    · exact h.estimates item hold
    · exact hexcerpts item (mem_pack hnew)

theorem addExcerpts_total (ctx : AssembledContext score)
    (excerpts : List (ContextItem score)) (tokenBudget : Nat) :
    (addExcerpts ctx excerpts tokenBudget).totalTokens ≤ max tokenBudget ctx.totalTokens :=
  costOf_pack_le_max ctx.totalTokens excerpts

/-- The bytes around a list of texts: its header, what separates the texts and what
separates it from the part before. -/
def overhead (header separator : String) (count : Nat) : Nat :=
  if count = 0 then 0
  else header.utf8ByteSize + separator.utf8ByteSize * (count - 1) + 2

def uncounted (ctx : AssembledContext score) : Nat :=
  overhead "Relevant context:\n" "\n---\n"
      (ctx.items.filter (fun item => !isExcerpt item)).length +
    overhead "Conversation excerpts:\n" "\n" (ctx.items.filter isExcerpt).length +
    2 * (graphSections ctx.entityContext ctx.impact).length

theorem size_texts (items : List (ContextItem score)) :
    costOf String.utf8ByteSize (items.map ContextItem.text) =
      costOf (fun item => item.text.utf8ByteSize) items := by
  rw [costOf, List.map_map, costOf]
  rfl

theorem size_titled (header separator : String) (texts : List String) :
    costOf String.utf8ByteSize
        (if texts.isEmpty then [] else [header ++ joinWith separator texts]) +
      2 * (if texts.isEmpty then [] else [header ++ joinWith separator texts]).length =
      costOf String.utf8ByteSize texts + overhead header separator texts.length := by
  cases texts with
  | nil => rfl
  | cons text rest =>
      have hjoin := size_joinWith separator (text :: rest)
      have hlength : (text :: rest).length ≠ 0 := Nat.succ_ne_zero rest.length
      have hempty : ¬ (text :: rest).isEmpty = true := Bool.false_ne_true
      rw [overhead, if_neg hlength, if_neg hempty, costOf_cons, costOf_nil,
        String.utf8ByteSize_append, hjoin, List.length_singleton]
      unfold costOf
      omega

theorem recordsPart_eq (items : List (ContextItem score)) :
    recordsPart items =
      if ((items.filter (fun item => !isExcerpt item)).map ContextItem.text).isEmpty then []
      else ["Relevant context:\n" ++ joinWith "\n---\n"
        ((items.filter (fun item => !isExcerpt item)).map ContextItem.text)] := by
  rw [List.isEmpty_map]
  rfl

theorem excerptsPart_eq (items : List (ContextItem score)) :
    excerptsPart items =
      if ((items.filter isExcerpt).map ContextItem.text).isEmpty then []
      else ["Conversation excerpts:\n" ++ joinWith "\n"
        ((items.filter isExcerpt).map ContextItem.text)] := by
  rw [List.isEmpty_map]
  rfl

theorem size_itemParts (items : List (ContextItem score)) :
    costOf String.utf8ByteSize (recordsPart items ++ excerptsPart items) +
      2 * (recordsPart items ++ excerptsPart items).length =
      costOf (fun item => item.text.utf8ByteSize) items +
        (overhead "Relevant context:\n" "\n---\n"
            (items.filter (fun item => !isExcerpt item)).length +
          overhead "Conversation excerpts:\n" "\n" (items.filter isExcerpt).length) := by
  have hrecords := size_titled "Relevant context:\n" "\n---\n"
    ((items.filter (fun item => !isExcerpt item)).map ContextItem.text)
  have hexcerpts := size_titled "Conversation excerpts:\n" "\n"
    ((items.filter isExcerpt).map ContextItem.text)
  rw [← recordsPart_eq, size_texts, List.length_map] at hrecords
  rw [← excerptsPart_eq, size_texts, List.length_map] at hexcerpts
  rw [← costOf_filter isExcerpt items, costOf_append, List.length_append]
  omega

variable [NameTables]

theorem filledCards_twice (cards : List Card) :
    filledCards (filledCards cards) = filledCards cards := by
  simp [filledCards]

theorem Counted.addCards (h : Counted ctx) (hcards : ctx.cards = [])
    (cards : List Card) : Counted (addCards ctx cards) where
  total := by
    have htotal := h.total
    rw [hcards, costOf_nil] at htotal
    simp only [Memory.addCards, cardTokens, filledCards_twice]
    change _ + costOf cardCost (filledCards cards) = _
    omega
  estimates := h.estimates

theorem addCards_total (ctx : AssembledContext score) (cards : List Card) :
    (addCards ctx cards).totalTokens = ctx.totalTokens + cardTokens cards := by
  rw [addCards, cardTokens, filledCards_twice, cardTokens]

theorem size_trimText (text : String) : (trimText text).utf8ByteSize ≤ text.utf8ByteSize := by
  obtain ⟨before, after, hsplit, _, _⟩ := @trimBy_split CharTables.isWhitespace text.toList
  have hsize := congrArg (fun cs => (encode cs).length) hsplit
  simp only [encode_append, List.length_append] at hsize
  rw [utf8ByteSize_eq, utf8ByteSize_eq, hsize, trimText, String.toList_ofList]
  omega

theorem size_cardPart (card : Card) : (cardPart card).utf8ByteSize + 2 ≤ 4 * cardCost card := by
  have htrim := size_trimText card.text
  have htext := size_le_estimate card.text
  have htitle : forall title : String, title.utf8ByteSize ≤ 12 ->
      (title ++ ":\n" ++ trimText card.text).utf8ByteSize + 2 ≤ 4 * cardCost card := by
    intro title htitle
    have hcolon : (":\n" : String).utf8ByteSize = 2 := by decide
    rw [String.utf8ByteSize_append, String.utf8ByteSize_append, hcolon, cardCost]
    omega
  unfold cardPart
  cases card.scope with
  | user => exact htitle "User card" (by decide)
  | workspace id => exact htitle "Project card" (by decide)

theorem size_cardParts (cards : List Card) :
    costOf String.utf8ByteSize (cards.map cardPart) + 2 * (cards.map cardPart).length ≤
      4 * costOf cardCost cards := by
  induction cards with
  | nil => exact Nat.le_refl 0
  | cons card rest ih =>
      have hcard := size_cardPart card
      rw [List.map_cons, costOf_cons, costOf_cons, List.length_cons]
      omega

theorem size_formatForLlm (h : Counted ctx) :
    (formatForLlm ctx).utf8ByteSize ≤ 4 * ctx.totalTokens + uncounted ctx := by
  have hcards := size_cardParts ctx.cards
  have hsections : costOf String.utf8ByteSize (graphSections ctx.entityContext ctx.impact) ≤
      4 * graphSectionTokens ctx.entityContext ctx.impact :=
    costOf_le (fun text _ => size_le_estimate text)
  have hitems : costOf (fun item => item.text.utf8ByteSize) ctx.items ≤
      4 * costOf ContextItem.tokenEstimate ctx.items := by
    apply costOf_le
    intro item hitem
    rw [h.estimates item hitem]
    exact size_le_estimate item.text
  have hparts := size_itemParts ctx.items
  have htotal := h.total
  have hseparator : ("\n\n" : String).utf8ByteSize = 2 := by decide
  rw [formatForLlm, size_joinWith, hseparator, List.append_assoc _ (recordsPart _)]
  change costOf String.utf8ByteSize _ + _ ≤ _
  rw [costOf_append, costOf_append, List.length_append, List.length_append, uncounted]
  omega

end

/-!
# Budgets
-/

section

variable {score : Type} [ScoreOps score] [NameTables] [UuidText] (now : Timestamp)
  (keys : List String) (cards : List Card) (turns : List (Turn score)) (query : String)
  (graph : EntityGraph) (updates : List ContextUpdate) (tokenBudget : Nat) (corpus : Corpus)

theorem assembleContext_counted :
    Counted (assembleContext now keys query graph updates tokenBudget :
      AssembledContext score) where
  total := rfl
  estimates := by
    intro item hitem
    have hscored := (List.mem_insertionSort _).mp (mem_pack hitem)
    obtain ⟨update, _, rfl⟩ := List.mem_map.mp hscored
    rfl

theorem assemble_counted :
    Counted (assemble now keys cards turns query graph updates tokenBudget corpus) := by
  refine ((assembleContext_counted _ _ _ _ _ _).addExcerpts ?_ _).addCards rfl cards
  intro item hitem
  have hmem := mem_pack hitem
  have hexcerpt : forall item, item ∈ turns.map (fun t => excerpt t.text t.score t.entryId) ->
      item.tokenEstimate = estimateTokens item.text := by
    intro item hitem
    obtain ⟨t, _, rfl⟩ := List.mem_map.mp hitem
    rfl
  cases corpus with
  | records => cases hmem
  | messages | all => exact hexcerpt item hmem

theorem assembleContext_total :
    (assembleContext now keys query graph updates tokenBudget :
        AssembledContext score).totalTokens ≤
      max tokenBudget (entitySummaryTokens keys query graph) := by
  have hitems : costOf ContextItem.tokenEstimate
      (assembleContext now keys query graph updates tokenBudget :
        AssembledContext score).items ≤
      tokenBudget - entitySummaryTokens keys query graph := by
    have hpack := @costOf_pack_le (ContextItem score) ContextItem.tokenEstimate
      (tokenBudget - entitySummaryTokens keys query graph) 0 (Nat.zero_le _)
    simp only [Nat.zero_add] at hpack
    exact hpack _
  change costOf ContextItem.tokenEstimate (assembleContext now keys query graph updates
    tokenBudget : AssembledContext score).items + entitySummaryTokens keys query graph ≤ _
  omega

theorem assemble_total :
    (assemble now keys cards turns query graph updates tokenBudget corpus).totalTokens ≤
      max tokenBudget (cardTokens cards + entitySummaryTokens keys query graph) := by
  have hcontext (updates : List ContextUpdate) (excerptTokens : Nat) :=
    @assembleContext_total score _ _ _ now keys query graph updates
      (tokenBudget - cardTokens cards - excerptTokens)
  unfold assemble
  rw [addCards_total]
  apply Nat.le_trans (Nat.add_le_add_right (addExcerpts_total _ _ _) (cardTokens cards))
  apply Nat.le_trans (Nat.add_le_add_right
    (max_le_max_left (tokenBudget - cardTokens cards) (hcontext _ _)) (cardTokens cards))
  omega

theorem le_assemble_total :
    cardTokens cards + entitySummaryTokens keys query graph ≤
      (assemble now keys cards turns query graph updates tokenBudget corpus).totalTokens := by
  have htotal :=
    (assemble_counted now keys cards turns query graph updates tokenBudget corpus).total
  change _ = _ + entitySummaryTokens keys query graph + cardTokens cards at htotal
  omega

/-- Every assembled context fits as far as its cards and the sections of the graph do, and
only headers and separators of its text are not counted. -/
theorem assemble_within :
    let ctx : AssembledContext score :=
      assemble now keys cards turns query graph updates tokenBudget corpus
    ctx.totalTokens ≤
        max tokenBudget (cardTokens cards + entitySummaryTokens keys query graph) ∧
      (ctx.totalTokens ≤ tokenBudget ↔
        cardTokens cards + entitySummaryTokens keys query graph ≤ tokenBudget) ∧
      estimateTokens (formatForLlm ctx) ≤ ctx.totalTokens + (uncounted ctx + 3) / 4 := by
  intro ctx
  have hle : ctx.totalTokens ≤ _ :=
    assemble_total now keys cards turns query graph updates tokenBudget corpus
  have hge : _ ≤ ctx.totalTokens :=
    le_assemble_total now keys cards turns query graph updates tokenBudget corpus
  refine ⟨hle, ?_, ?_⟩
  · constructor <;> omega
  · exact estimate_le (size_formatForLlm
      (assemble_counted now keys cards turns query graph updates tokenBudget corpus))

end

/-!
# Budgets that are exceeded
-/

@[reducible] def exactScores : ScoreOps Rat where
  literal := id
  ofHours := fun hours => hours
  add := fun a b => a + b
  mul := fun a b => a * b
  div := fun a b => a / b
  min := fun a b => if a ≤ b then a else b
  le := fun a b => decide (a ≤ b)

attribute [local instance] asciiNames exactScores hyphenatedText

/-- The relations of an entity go in over any budget, and the header of the records is not
counted. -/
theorem budget_exceeded :
    let onRelations : AssembledContext Rat :=
      assemble 0 ["ChatRepositoryImpl", "store"] [] [] "ChatRepositoryImpl" camelCaseGraph []
        1 Corpus.records
    let onRecords : AssembledContext Rat :=
      assemble 0 [] [] [] "" EntityGraph.new [ContextUpdate.plain 0 0 "done"] 6 Corpus.records
    ¬ onRelations.totalTokens ≤ 1 ∧
      onRecords.totalTokens ≤ 6 ∧ ¬ estimateTokens (formatForLlm onRecords) ≤ 6 := by
  refine ⟨?_, ?_, ?_⟩
  · decide +kernel
  · decide +kernel
  · decide +kernel

end Memory
end PostCortex
