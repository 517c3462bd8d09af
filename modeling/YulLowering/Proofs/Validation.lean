import Mathlib.Algebra.BigOperators.Fin
import YulLowering.Ir.Validation
import YulLowering.Proofs.ControlFlow
import YulLowering.Proofs.Listing.Fields

/-!
# Validation finds what is wrong, and nothing else

Validation accepts a function exactly if its structure is what it should be. The search for an open block
is told as a run of rounds, each of which takes one block from the worklist, and what the search finds is
read off such runs: the blocks that have been seen are closed, and their successors have been seen or are on
the worklist.
-/

namespace YulLowering.Ir

namespace Function

/-- What the structure of a function should be. Blocks that control cannot reach may stay open. -/
structure WellFormed (function : Function) : Prop where
  nonempty : function.blocks ≠ []
  entry : (function.block? function.entry).isSome
  within : ∀ source target, function.Edge source target → (function.block? target).isSome
  closed : ∀ id block, function.Leads function.entry id → function.block? id = some block →
    block.terminator ≠ .unreachable

theorem isSome_exit? (function : Function) (id : BlockId) :
    (function.exit? id).isSome = (function.block? id).isSome := by
  rw [exit?, Option.isSome_map]

/-- A block is found at its position. -/
theorem exists_block?_of_mem {function : Function} {block : BasicBlock}
    (member : block ∈ function.blocks) : ∃ id, function.block? id = some block := by
  obtain ⟨index, bound, rfl⟩ := List.mem_iff_getElem.mp member
  exact ⟨⟨index⟩, List.getElem?_eq_getElem bound⟩

theorem mem_of_block? {function : Function} {id : BlockId} {block : BasicBlock}
    (found : function.block? id = some block) : block ∈ function.blocks :=
  List.mem_of_getElem? found

/-- The edges from a block are those to its successors. -/
theorem edge_iff_of_block? {function : Function} {id target : BlockId} {block : BasicBlock}
    (found : function.block? id = some block) :
    function.Edge id target ↔ target ∈ block.successors := by
  have exit : function.exit? id = some block.terminator := by
    rw [exit?, found]
    rfl
  constructor
  · rintro ⟨terminator, isExit, leads⟩
    rw [exit] at isExit
    cases isExit
    exact leads
  · exact fun leads => ⟨block.terminator, exit, leads⟩

/-- Edges only come from blocks. -/
theorem isSome_of_edge {function : Function} {source target : BlockId}
    (edge : function.Edge source target) : (function.block? source).isSome := by
  obtain ⟨terminator, isExit, -⟩ := edge
  rw [← isSome_exit?, isExit]
  rfl

/-! ## Functions built by operations -/

/-- Functions that come about by the operations on functions. Blocks may be changed in any way that keeps
their numbers. -/
inductive Built : Function → Prop where
  | create (name : String) (parameterTypes : List ValueType) (resultType : ValueType)
      (resultCount : Nat) : Built (.create name parameterTypes resultType resultCount)
  | freshValue {function : Function} (built : Built function) (type : ValueType) :
      Built (function.freshValue type).2
  | pushLocal {function : Function} (built : Built function) (name : String) (type : ValueType) :
      Built (function.pushLocal name type).2
  | pushBlock {function : Function} (built : Built function) (label : Option String) :
      Built (function.pushBlock label).2
  | enterAt {function : Function} (built : Built function) (entry : BlockId) :
      Built { function with entry := entry }
  | modifyBlock {function : Function} (built : Built function) (id : BlockId)
      (change : BasicBlock → BasicBlock) (sameId : ∀ block, (change block).id = block.id) :
      Built (function.modifyBlock id change)

/-- Blocks are numbered by their position. -/
theorem Built.id_eq {function : Function} (built : function.Built) {id : BlockId} {block : BasicBlock}
    (found : function.block? id = some block) : block.id = id := by
  induction built generalizing id block with
  | create => cases found
  | freshValue _ _ ih => exact ih found
  | pushLocal _ _ _ ih => exact ih found
  | enterAt _ _ ih => exact ih found
  | pushBlock _ label ih =>
      rw [block?_pushBlock] at found
      split at found
      · cases found
        rfl
      · exact ih found
  | modifyBlock _ other change sameId ih =>
      rw [block?_modifyBlock] at found
      split at found
      · obtain ⟨before, foundBefore, rfl⟩ := Option.map_eq_some_iff.mp found
        exact (sameId before).trans (ih foundBefore)
      · exact ih found

/-! ## Rounds of the search -/

/-- A search goes on from the blocks it has seen and those on its worklist for a number of rounds, and
ends with the first open block that it meets, if it meets one. -/
inductive Searches (function : Function) :
    List BlockId → List BlockId → Nat → Option BlockId → Prop where
  | finished (seen : List BlockId) : Searches function seen [] 0 none
  | absent {seen rest : List BlockId} {id : BlockId} {rounds : Nat} {result : Option BlockId}
      (missing : function.block? id = none) (others : Searches function seen rest rounds result) :
      Searches function seen (id :: rest) (rounds + 1) result
  | again {seen rest : List BlockId} {id : BlockId} {rounds : Nat} {result : Option BlockId}
      (known : id ∈ seen) (others : Searches function seen rest rounds result) :
      Searches function seen (id :: rest) (rounds + 1) result
  | closed {seen rest : List BlockId} {id : BlockId} {block : BasicBlock} {rounds : Nat}
      {result : Option BlockId} (found : function.block? id = some block) (fresh : id ∉ seen)
      (isClosed : block.isClosed = true)
      (others : Searches function (id :: seen) (block.successors.reverse ++ rest) rounds result) :
      Searches function seen (id :: rest) (rounds + 1) result
  | stopped {seen rest : List BlockId} {id : BlockId} {block : BasicBlock}
      (found : function.block? id = some block) (fresh : id ∉ seen)
      (isOpen : block.isClosed = false) : Searches function seen (id :: rest) 1 (some block.id)

/-- The number of edges of a function. -/
def edgeCount (function : Function) : Nat :=
  (function.blocks.map fun block => block.successors.length).sum

/-- The number of edges that come from blocks which a search has not seen. -/
def unseenEdges (function : Function) (seen : List BlockId) : Nat :=
  ∑ index ∈ Finset.range function.blocks.length,
    if (⟨index⟩ : BlockId) ∈ seen then 0
    else ((function.block? ⟨index⟩).elim 0 fun block => block.successors.length)

theorem unseenEdges_nil (function : Function) : function.unseenEdges [] = function.edgeCount := by
  rw [unseenEdges, edgeCount, Finset.sum_range, ← Fin.sum_univ_fun_getElem]
  apply Finset.sum_congr rfl
  intro index _
  simp [block?]

/-- Seeing a block uses up the edges that come from it. -/
theorem unseenEdges_cons {function : Function} {seen : List BlockId} {id : BlockId} {block : BasicBlock}
    (found : function.block? id = some block) (fresh : id ∉ seen) :
    function.unseenEdges (id :: seen) + block.successors.length = function.unseenEdges seen := by
  obtain ⟨inRange, -⟩ := List.getElem?_eq_some_iff.mp found
  have single : block.successors.length = ∑ index ∈ Finset.range function.blocks.length,
      if index = id.index then block.successors.length else 0 := by
    rw [Finset.sum_ite_eq', if_pos (Finset.mem_range.mpr inRange)]
  rw [unseenEdges, unseenEdges, single, ← Finset.sum_add_distrib]
  apply Finset.sum_congr rfl
  intro index _
  by_cases isIt : index = id.index
  · subst isIt
    simp [fresh, found]
  · have other : (⟨index⟩ : BlockId) ≠ id := by
      rintro rfl
      exact isIt rfl
    simp [isIt, other]

/-- The search comes to an end: each block is put on the worklist once for the start and once for each
edge to it, at most. -/
theorem exists_searches (function : Function) (seen pending : List BlockId) :
    ∃ rounds, function.Searches seen pending rounds (function.openBlockFrom? seen pending) ∧
      rounds ≤ pending.length + function.unseenEdges seen := by
  fun_induction openBlockFrom? function seen pending with
  | case1 seen => exact ⟨0, .finished seen, Nat.zero_le _⟩
  | case2 seen id rest missing ih =>
      obtain ⟨rounds, others, bound⟩ := ih
      exact ⟨rounds + 1, .absent missing others, by simp only [List.length_cons]; omega⟩
  | case3 seen id rest block found fresh isClosed ih =>
      obtain ⟨rounds, others, bound⟩ := ih
      refine ⟨rounds + 1, .closed found fresh isClosed others, ?_⟩
      have used := unseenEdges_cons found fresh
      simp only [List.length_append, List.length_reverse, List.length_cons] at bound ⊢
      omega
  | case4 seen id rest block found fresh isOpen =>
      refine ⟨1, .stopped found fresh (by simpa using isOpen), ?_⟩
      simp only [List.length_cons]
      omega
  | case5 seen id rest block found known ih =>
      obtain ⟨rounds, others, bound⟩ := ih
      exact ⟨rounds + 1, .again (by simpa using known) others, by simp only [List.length_cons]; omega⟩

namespace Searches

variable {function : Function} {seen pending : List BlockId} {rounds : Nat}

/-- What a search finds is open, and the worklist leads to it. -/
theorem sound {result : Option BlockId} (searches : function.Searches seen pending rounds result)
    {name : BlockId} (isFound : result = some name) :
    ∃ start ∈ pending, ∃ id block, function.Leads start id ∧ function.block? id = some block ∧
      block.isClosed = false ∧ block.id = name := by
  induction searches with
  | finished => cases isFound
  | absent _ _ ih =>
      obtain ⟨start, waits, reached⟩ := ih isFound
      exact ⟨start, List.mem_cons_of_mem _ waits, reached⟩
  | again _ _ ih =>
      obtain ⟨start, waits, reached⟩ := ih isFound
      exact ⟨start, List.mem_cons_of_mem _ waits, reached⟩
  | @closed seen rest id block _ _ found _ _ _ ih =>
      obtain ⟨start, waits, other, open_, leads, reached⟩ := ih isFound
      rcases List.mem_append.mp waits with next | waits
      · have edge := (edge_iff_of_block? found).mpr (List.mem_reverse.mp next)
        exact ⟨id, List.mem_cons_self, other, open_, .head edge leads, reached⟩
      · exact ⟨start, List.mem_cons_of_mem _ waits, other, open_, leads, reached⟩
  | @stopped seen rest id block found _ isOpen =>
      cases isFound
      exact ⟨id, List.mem_cons_self, id, block, .refl, found, isOpen, rfl⟩

end Searches

/-- Blocks that have been seen are closed, and what they lead to has been seen or is on the worklist. -/
def Explored (function : Function) (seen pending : List BlockId) : Prop :=
  ∀ id ∈ seen, ∀ block, function.block? id = some block → block.isClosed = true ∧
    ∀ next ∈ block.successors, (function.block? next).isSome → next ∈ seen ∨ next ∈ pending

namespace Explored

variable {function : Function} {seen rest : List BlockId} {id : BlockId}

/-- A block that there is not need not be explored, nor one that has been seen. -/
theorem skip (explored : function.Explored seen (id :: rest))
    (known : (function.block? id).isSome → id ∈ seen) : function.Explored seen rest := by
  intro other isSeen block found
  obtain ⟨isClosed, onward⟩ := explored other isSeen block found
  refine ⟨isClosed, ?_⟩
  intro next leads present
  rcases onward next leads present with isSeen | waits
  · exact .inl isSeen
  · rcases List.mem_cons.mp waits with rfl | waits
    · exact .inl (known present)
    · exact .inr waits

/-- A closed block is explored by putting its successors on the worklist. -/
theorem see {block : BasicBlock} (explored : function.Explored seen (id :: rest))
    (found : function.block? id = some block) (isClosed : block.isClosed = true) :
    function.Explored (id :: seen) (block.successors.reverse ++ rest) := by
  intro other isSeen content foundOther
  rcases List.mem_cons.mp isSeen with rfl | isSeen
  · rw [found] at foundOther
    cases foundOther
    exact ⟨isClosed, fun next leads _ =>
      .inr (List.mem_append_left _ (List.mem_reverse.mpr leads))⟩
  · obtain ⟨otherClosed, onward⟩ := explored other isSeen content foundOther
    refine ⟨otherClosed, ?_⟩
    intro next leads present
    rcases onward next leads present with isSeen | waits
    · exact .inl (List.mem_cons_of_mem _ isSeen)
    · rcases List.mem_cons.mp waits with rfl | waits
      · exact .inl List.mem_cons_self
      · exact .inr (List.mem_append_right _ waits)

/-- Where nothing is left to explore, all that can be reached has been seen. -/
theorem mem_of_leads (explored : function.Explored seen []) {start : BlockId}
    (known : (function.block? start).isSome → start ∈ seen) (leads : function.Leads start id)
    (present : (function.block? id).isSome) : id ∈ seen := by
  induction leads with
  | refl => exact known present
  | @tail middle last _ edge ih =>
      have source := isSome_of_edge edge
      obtain ⟨block, found⟩ := Option.isSome_iff_exists.mp source
      obtain ⟨-, onward⟩ := explored middle (ih source) block found
      rcases onward last ((edge_iff_of_block? found).mp edge) present with isSeen | waits
      · exact isSeen
      · cases waits

end Explored

/-- A search that finds nothing has explored all that the worklist leads to. -/
theorem Searches.complete {function : Function} {seen pending : List BlockId} {rounds : Nat}
    {result : Option BlockId} (searches : function.Searches seen pending rounds result)
    (nothing : result = none) (explored : function.Explored seen pending) :
    ∃ all, seen ⊆ all ∧ (∀ id ∈ pending, (function.block? id).isSome → id ∈ all) ∧
      function.Explored all [] := by
  induction searches with
  | finished seen => exact ⟨seen, List.Subset.refl _, (fun _ waits => nomatch waits), explored⟩
  | @absent seen rest id _ _ missing _ ih =>
      have absurd_ : ¬ (function.block? id).isSome := by simp [missing]
      obtain ⟨all, includes, reaches, whole⟩ := ih nothing (explored.skip fun present => absurd present absurd_)
      refine ⟨all, includes, ?_, whole⟩
      intro other waits present
      rcases List.mem_cons.mp waits with rfl | waits
      · exact absurd present absurd_
      · exact reaches other waits present
  | @again seen rest id _ _ known _ ih =>
      obtain ⟨all, includes, reaches, whole⟩ := ih nothing (explored.skip fun _ => known)
      refine ⟨all, includes, ?_, whole⟩
      intro other waits present
      rcases List.mem_cons.mp waits with rfl | waits
      · exact includes known
      · exact reaches other waits present
  | @closed seen rest id block _ _ found _ isClosed _ ih =>
      obtain ⟨all, includes, reaches, whole⟩ := ih nothing (explored.see found isClosed)
      refine ⟨all, List.Subset.trans (List.subset_cons_self _ _) includes, ?_, whole⟩
      intro other waits present
      rcases List.mem_cons.mp waits with rfl | waits
      · exact includes List.mem_cons_self
      · exact reaches other (List.mem_append_right _ waits) present
  | stopped => cases nothing

/-- The search finds nothing exactly if all that can be reached is closed. -/
theorem openBlockFrom?_eq_none_iff (function : Function) (start : BlockId) :
    function.openBlockFrom? [] [start] = none ↔
      ∀ id block, function.Leads start id → function.block? id = some block →
        block.terminator ≠ .unreachable := by
  obtain ⟨rounds, searches, -⟩ := function.exists_searches [] [start]
  constructor
  · intro nothing id block leads found
    obtain ⟨all, -, reaches, explored⟩ :=
      searches.complete nothing fun _ isSeen => nomatch isSeen
    have isSeen : id ∈ all :=
      explored.mem_of_leads (reaches start List.mem_cons_self) leads (by simp [found])
    exact (Terminator.isSet_eq_true _).mp (explored id isSeen block found).1
  · intro closed
    by_contra something
    obtain ⟨name, isFound⟩ := Option.ne_none_iff_exists'.mp something
    obtain ⟨_, waits, id, block, leads, found, isOpen, -⟩ := searches.sound isFound
    cases List.mem_singleton.mp waits
    exact closed id block leads found ((Terminator.isSet_eq_false _).mp isOpen)

theorem danglingEdge?_eq_none_iff (function : Function) :
    function.danglingEdge? = none ↔
      ∀ source target, function.Edge source target → (function.block? target).isSome := by
  rw [danglingEdge?, List.findSome?_eq_none_iff]
  constructor
  · intro nowhere source target edge
    obtain ⟨block, found⟩ := Option.isSome_iff_exists.mp (isSome_of_edge edge)
    have none_ := nowhere block (mem_of_block? found)
    rw [Option.map_eq_none_iff, List.find?_eq_none] at none_
    simpa [Option.isSome_iff_ne_none] using none_ target ((edge_iff_of_block? found).mp edge)
  · intro within block member
    obtain ⟨id, found⟩ := exists_block?_of_mem member
    rw [Option.map_eq_none_iff, List.find?_eq_none]
    intro target leads
    rw [Option.isNone_iff_eq_none, ← ne_eq, Option.ne_none_iff_isSome]
    exact within id target ((edge_iff_of_block? found).mpr leads)

/-- Validation accepts a function exactly if it is well formed. -/
theorem fault?_eq_none_iff (function : Function) : function.fault? = none ↔ function.WellFormed := by
  rw [fault?]
  by_cases empty : function.blocks.isEmpty
  · rw [if_pos empty]
    exact iff_of_false (by simp) fun wellFormed => wellFormed.nonempty (List.isEmpty_iff.mp empty)
  rw [if_neg empty]
  by_cases missing : (function.block? function.entry).isNone
  · rw [if_pos missing]
    refine iff_of_false (by simp) fun wellFormed => ?_
    have present := wellFormed.entry
    rw [Option.isNone_iff_eq_none.mp missing] at present
    cases present
  rw [if_neg missing]
  cases dangling : function.danglingEdge? with
  | some edge =>
      refine iff_of_false (by simp) fun wellFormed => ?_
      rw [(danglingEdge?_eq_none_iff function).mpr wellFormed.within] at dangling
      cases dangling
  | none =>
      rw [Option.map_eq_none_iff, openBlockFrom?_eq_none_iff]
      constructor
      · intro closed
        refine ⟨?_, ?_, (danglingEdge?_eq_none_iff function).mp dangling, closed⟩
        · rwa [List.isEmpty_iff] at empty
        · rwa [Option.isNone_iff_eq_none, ← ne_eq, Option.ne_none_iff_isSome] at missing
      · exact WellFormed.closed

instance (function : Function) : Decidable function.WellFormed :=
  decidable_of_iff _ function.fault?_eq_none_iff

end Function

/-! ## What is reported -/

/-- What a structural fault says of a function. -/
def StructuralFault.Holds (function : Function) : StructuralFault → Prop
  | noBlocks => function.blocks = []
  | missingEntry entry => function.entry = entry ∧ function.block? entry = none
  | danglingEdge source target => function.Edge source target ∧ function.block? target = none
  | openBlock id => function.Leads function.entry id ∧
      ∃ block, function.block? id = some block ∧ block.terminator = .unreachable

/-- What validation reports is so. -/
theorem Function.Built.holds {function : Function} (built : function.Built) {fault : StructuralFault}
    (reported : function.fault? = some fault) : fault.Holds function := by
  rw [fault?] at reported
  split at reported
  · next empty =>
    cases reported
    exact List.isEmpty_iff.mp empty
  · split at reported
    · next missing =>
      cases reported
      exact ⟨rfl, Option.isNone_iff_eq_none.mp missing⟩
    · cases dangling : function.danglingEdge? with
      | some edge =>
          obtain ⟨source, target⟩ := edge
          rw [dangling] at reported
          cases reported
          obtain ⟨block, member, first⟩ := List.exists_of_findSome?_eq_some dangling
          obtain ⟨other, isFirst, equal⟩ := Option.map_eq_some_iff.mp first
          cases equal
          obtain ⟨id, found⟩ := exists_block?_of_mem member
          rw [built.id_eq found]
          exact ⟨(edge_iff_of_block? found).mpr (List.mem_of_find?_eq_some isFirst),
            Option.isNone_iff_eq_none.mp (by simpa using List.find?_some isFirst)⟩
      | none =>
          rw [dangling] at reported
          obtain ⟨name, isFound, rfl⟩ := Option.map_eq_some_iff.mp reported
          obtain ⟨rounds, searches, -⟩ := function.exists_searches [] [function.entry]
          obtain ⟨_, waits, id, block, leads, found, isOpen, isName⟩ := searches.sound isFound
          cases List.mem_singleton.mp waits
          obtain rfl : id = name := (built.id_eq found).symm.trans isName
          exact ⟨leads, block, found, (Terminator.isSet_eq_false _).mp isOpen⟩

/-- A text begins as its first part does. -/
theorem head?_toList_append {text : String} {char : Char} (begins : text.toList.head? = some char)
    (more : String) : (text ++ more).toList.head? = some char := by
  rw [String.toList_append, List.head?_append, begins, Option.some_or]

/-- The first letter of the words for a structural fault. -/
def StructuralFault.initial : StructuralFault → Char
  | noBlocks => 'F'
  | missingEntry _ => 'E'
  | danglingEdge _ _ => 'B'
  | openBlock _ => 'R'

theorem StructuralFault.head?_message (fault : StructuralFault) :
    fault.message.toList.head? = some fault.initial := by
  cases fault with
  | noBlocks =>
      have begins : "Function has no blocks".toList.head? = some 'F' := by simp
      exact begins
  | missingEntry entry =>
      have begins : "Entry block bb".toList.head? = some 'E' := by simp
      exact head?_toList_append (head?_toList_append begins _) _
  | danglingEdge source target =>
      have begins : "Block bb".toList.head? = some 'B' := by simp
      exact head?_toList_append (head?_toList_append (head?_toList_append begins _) _) _
  | openBlock block =>
      have begins : "Reachable block bb".toList.head? = some 'R' := by simp
      exact head?_toList_append (head?_toList_append begins _) _

/-- The words for an open block are used for nothing else, and tell which block it is. -/
theorem StructuralFault.eq_openBlock {fault : StructuralFault} {id : BlockId}
    (same : fault.message = (openBlock id).message) : fault = .openBlock id := by
  have initial := congrArg (fun text => text.toList.head?) same
  simp only [head?_message] at initial
  cases fault with
  | openBlock block =>
      have words : s!"Reachable block bb{block.index} has no terminator" =
          s!"Reachable block bb{id.index} has no terminator" := same
      rw [String.append_left_inj, String.append_right_inj] at words
      exact congrArg (fun index => openBlock ⟨index⟩) (repr_inj.mp words)
  | noBlocks | missingEntry | danglingEdge => cases initial

/-- The message for a function that validation does not accept. -/
def Module.Reports (entry : Function × Nat) (problem : String) : Prop :=
  ∃ fault, entry.1.fault? = some fault ∧
    problem = s!"Function '{entry.1.name}' ({entry.2}): {fault.message}"

/-- The functions that are not well formed are those that are reported, in their order. -/
theorem Module.reports_problems (functions : List (Function × Nat)) :
    List.Forall₂ Module.Reports (functions.filter fun entry => ¬ entry.1.WellFormed)
      (functions.filterMap fun (function, index) =>
        function.fault?.map fun fault =>
          s!"Function '{function.name}' ({index}): {fault.message}") := by
  induction functions with
  | nil => exact .nil
  | cons entry rest ih =>
      obtain ⟨function, index⟩ := entry
      cases reported : function.fault? with
      | none =>
          have wellFormed := function.fault?_eq_none_iff.mp reported
          simpa [wellFormed, reported] using ih
      | some fault =>
          have broken : ¬ function.WellFormed := by
            rw [← Function.fault?_eq_none_iff, reported]
            simp
          rw [List.filter_cons_of_pos (by simpa using broken), List.filterMap_cons]
          simp only [reported, Option.map_some]
          exact .cons ⟨fault, reported, rfl⟩ ih

theorem Module.problems_eq_nil_iff (module : Module) :
    module.problems = [] ↔ ∀ function ∈ module.functions, function.WellFormed := by
  rw [problems, List.filterMap_eq_nil_iff]
  constructor
  · intro silent function member
    obtain ⟨index, bound, rfl⟩ := List.mem_iff_getElem.mp member
    have entry : (module.functions[index], index) ∈ module.functions.zipIdx :=
      List.mk_mem_zipIdx_iff_getElem?.mpr (List.getElem?_eq_getElem bound)
    exact (Function.fault?_eq_none_iff _).mp (Option.map_eq_none_iff.mp (silent _ entry))
  · rintro wellFormed ⟨function, index⟩ member
    have accepted := wellFormed function (List.fst_mem_of_mem_zipIdx member)
    show (function.fault?.map _) = none
    rw [(Function.fault?_eq_none_iff _).mpr accepted]
    rfl

/-- Validation is sound, complete and comes to an end. A function is accepted exactly if it is well formed;
the search for an open block takes no more rounds than there are edges, and one; and if a block is reported
as open, it is open and control can reach it. A module is accepted exactly if all its functions are, and
else there is one message for each that is not, in the order of the functions. -/
theorem validation_decides_wellFormed :
    (∀ function : Function,
      (function.fault? = none ↔ function.WellFormed) ∧
      (∃ rounds ≤ function.edgeCount + 1, function.Searches [] [function.entry] rounds
        (function.openBlockFrom? [] [function.entry])) ∧
      (function.Built → ∀ id : BlockId, function.fault?.map StructuralFault.message =
          some s!"Reachable block bb{id.index} has no terminator" →
        function.Leads function.entry id ∧
          ∃ block, function.block? id = some block ∧ block.terminator = .unreachable)) ∧
    ∀ module : Module,
      (module.problems = [] ↔ ∀ function ∈ module.functions, function.WellFormed) ∧
      List.Forall₂ Module.Reports
        (module.functions.zipIdx.filter fun entry => ¬ entry.1.WellFormed) module.problems := by
  refine ⟨fun function => ⟨function.fault?_eq_none_iff, ?_, ?_⟩,
    fun module => ⟨module.problems_eq_nil_iff, Module.reports_problems _⟩⟩
  · obtain ⟨rounds, searches, bound⟩ := function.exists_searches [] [function.entry]
    rw [Function.unseenEdges_nil, List.length_singleton, Nat.add_comm] at bound
    exact ⟨rounds, bound, searches⟩
  · intro built id reported
    obtain ⟨fault, isFault, words⟩ := Option.map_eq_some_iff.mp reported
    rw [StructuralFault.eq_openBlock words] at isFault
    exact built.holds isFault

/-- A block that leads back to itself and on to an open one. -/
def openCycle : Function :=
  (((Function.create "f" [] .void 0).pushBlock (some "entry")).2.pushBlock none).2.modifyBlock ⟨0⟩
    fun block => block.close (.switch ⟨⟨0⟩, .int 8⟩ [(1, ⟨0⟩)] ⟨1⟩)

theorem fault?_openCycle : openCycle.fault? = some (.openBlock ⟨1⟩) := by
  have edges : openCycle.danglingEdge? = none := by decide
  have second : openCycle.openBlockFrom? [⟨0⟩] [⟨1⟩, ⟨0⟩] = some ⟨1⟩ := by
    rw [Function.openBlockFrom?]
    split
    · next missing => cases missing
    · next block found =>
      cases found
      rfl
  have first : openCycle.openBlockFrom? [] [⟨0⟩] = some ⟨1⟩ := by
    rw [Function.openBlockFrom?]
    split
    · next missing => cases missing
    · next block found =>
      cases found
      exact second
  rw [Function.fault?, edges]
  exact congrArg (Option.map StructuralFault.openBlock) first

theorem validation_decides_wellFormed_openCycle :
    openCycle.Built ∧
      openCycle.fault?.map StructuralFault.message = some (StructuralFault.openBlock ⟨1⟩).message ∧
      openCycle.Leads openCycle.entry ⟨1⟩ ∧
        ∃ block, openCycle.block? ⟨1⟩ = some block ∧ block.terminator = .unreachable := by
  have built : openCycle.Built :=
    .modifyBlock (.pushBlock (.pushBlock (.create _ _ _ _) _) _) _ _ fun _ => rfl
  have reported := congrArg (Option.map StructuralFault.message) fault?_openCycle
  exact ⟨built, reported, (validation_decides_wellFormed.1 openCycle).2.2 built ⟨1⟩ reported⟩

end YulLowering.Ir
