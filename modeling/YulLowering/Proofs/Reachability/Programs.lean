import YulLowering.Proofs.Programs
import YulLowering.Proofs.Reachability.Statements
import YulLowering.Proofs.Validation

/-!
# What control can reach in lowered programs

Where control cannot go on after a statement, the next one gets a block with a label of its own, and nothing
leads there. Only loop exits and default arms that another default arm follows cut off code in this way: in
a function without them control can reach every block.
-/

namespace YulLowering

namespace Ir

/-- Which blocks of a function control can reach, as far as the body that it has been written for tells. -/
structure Function.Reached (body : List Statement) (function : Function) : Prop where
  cutOff : ∀ id, function.label? id = some "unreachable" →
    (∀ source, ¬ function.Edge source id) ∧ ¬ function.Leads function.entry id
  all : Statement.anyCutsOff body = false →
    ∀ id, (function.block? id).isSome → function.Leads function.entry id

/-- Where edges are directed, code that is cut off is never entered. -/
theorem Function.Directed.cutOff {function : Function} (directed : function.Directed)
    (entry : function.Intended function.entry) {id : BlockId}
    (isCutOff : function.label? id = some "unreachable") :
    (∀ source, ¬ function.Edge source id) ∧ ¬ function.Leads function.entry id := by
  have unintended : ¬ function.Intended id := by
    rintro ⟨label, isLabel, meant⟩
    exact meant (Option.some.inj (isLabel.symm.trans isCutOff))
  have untargeted (source : BlockId) (edge : function.Edge source id) : False :=
    unintended (directed source id edge)
  refine ⟨untargeted, fun leads => ?_⟩
  rcases Relation.ReflTransGen.cases_tail leads with isEntry | ⟨source, -, edge⟩
  · exact unintended (isEntry ▸ entry)
  · exact untargeted source edge

end Ir

namespace Lowering

variable {context : Context}

/-! ## Parameters and return variables -/

theorem sameFlow_bindParameters (names : List TypedName) (values : List Ir.Value) :
    (bindParameters names values).Respects State.SameFlow := by
  induction names generalizing values with
  | nil => exact .pure ()
  | cons head names ih =>
      cases values with
      | nil => exact .pure ()
      | cons value values =>
          exact .bind (sameFlow_declare head.name value.type) fun _ =>
            .bind (StraightLine.respects_store _ _) fun _ => ih values

theorem sameFlow_bindReturns (names : List TypedName) (types : List Ir.ValueType) :
    (bindReturns names types).Respects State.SameFlow := by
  induction names generalizing types with
  | nil => exact .pure []
  | cons head names ih =>
      cases types with
      | nil => exact .pure []
      | cons type types =>
          exact .bind (sameFlow_declare head.name type) fun _ =>
            .bind (.write fun state => StraightLine.written state _) fun _ =>
              .bind (StraightLine.respects_store _ _) fun _ => .bind (ih types) fun _ => .pure _

/-! ## Functions -/

/-- A function begins with its entry alone. -/
theorem Progress.guided_begin (progress : Progress) (name : String) (signature : Signature) :
    (progress.begin name signature).Guided [] where
  settled := (progress.begins name signature).settled
  directed := by
    rintro source target ⟨exit, isExit, leads⟩
    rw [(progress.exit?_begin name signature isExit).2] at leads
    cases leads
  loops _ enclosing := nomatch enclosing
  meant _ waits := nomatch waits

theorem Progress.connected_begin (progress : Progress) (name : String) (signature : Signature) :
    (progress.begin name signature).draft.Connected [] where
  isOpen := (progress.begins name signature).isOpen
  here := .refl
  spans := by
    intro id present
    obtain ⟨exit, isExit⟩ := Option.isSome_iff_exists.mp present
    rw [(progress.exit?_begin name signature isExit).1]
    exact .inl .refl

theorem Progress.intended_entry (progress : Progress) (name : String) (signature : Signature) :
    (progress.begin name signature).draft.function.Intended
      (progress.begin name signature).draft.function.entry :=
  ⟨"entry", rfl, by decide⟩

variable {state : State}

theorem intended_returned {id : Ir.BlockId} (intended : state.draft.function.Intended id)
    (returns : List Binding) : (state.returned returns).draft.function.Intended id := by
  apply Ir.Draft.intended_close
  unfold Ir.Function.Intended
  rwa [label?_writeAll]

/-- Returning makes no edges. -/
theorem directed_returned (directed : state.draft.function.Directed) (returns : List Binding) :
    (state.returned returns).draft.function.Directed :=
  Ir.Draft.directed_close
    (Ir.Draft.directed_of_eq directed (exit?_writeAll _ _) (label?_writeAll _ _))
    fun _ leads => nomatch leads

theorem spans_returned (connected : state.draft.Connected []) (returns : List Binding) :
    (state.returned returns).draft.Spans [] :=
  (connected.of_exit?_eq (exit?_writeAll _ _) (entry_writeAll _ _) (cursor_writeAll _ _)).spans_close
    fun _ waits => nomatch waits

namespace Origin

variable {last : Progress} {definition : Definition} {function : Ir.Function}

/-- Parameters and return variables have no influence on the flow of control. -/
theorem sameFlow_prepared (origin : Origin context last definition function) :
    (origin.before.begin definition.name origin.signature).SameFlow origin.prepared.state := by
  let begun := origin.before.begin definition.name origin.signature
  have copies : begun.SameFlow origin.start := by
    have holds := (sameFlow_bindParameters definition.parameters
      begun.draft.function.parameters).holds begun
    rwa [after_bindParameters] at holds
  have returns := (sameFlow_bindReturns definition.returns origin.signature.results).yields origin.start
  exact IsTrans.trans _ _ _ copies (returns.holds _ _ origin.run.binds)

theorem reached (origin : Origin context last definition function) :
    function.Reached definition.body := by
  let begun := origin.before.begin definition.name origin.signature
  have same : begun.SameFlow origin.prepared.state := origin.sameFlow_prepared
  have guided := (origin.before.guided_begin definition.name origin.signature).same
    (origin.before.begins definition.name origin.signature).isOpen same
  obtain ⟨passed, guides, -⟩ := ((guides_statements definition.body).inBlock guided).holds _ _
    origin.run.part.after
  have entry : function.entry = begun.draft.function.entry := origin.grows.entry
  constructor
  case cutOff =>
    intro id isCutOff
    apply Ir.Function.Directed.cutOff _ _ isCutOff
    · rw [origin.function_eq]
      exact directed_returned guides.directed origin.returns
    · rw [entry, origin.function_eq]
      exact intended_returned (passed.intended _ (same.intended
        (origin.before.intended_entry definition.name origin.signature))) origin.returns
  case all =>
    intro uncut id present
    have connected := guides.connects uncut [] (same.connected
      (origin.before.connected_begin definition.name origin.signature))
    have spans := spans_returned connected origin.returns
    rw [← Ir.Function.isSome_exit?, origin.function_eq] at present
    rw [origin.function_eq]
    exact (spans id present).resolve_right List.not_mem_nil

end Origin

end Lowering

/-- In the functions of lowered modules nothing leads to code that is cut off, and code is only cut off by
loop exits and by switches with several default arms. -/
theorem Block.reached_of_toModule {dialect : Dialect} {types : Lowering.TypeNames} {name : String}
    {program : Block} {module : Ir.Module}
    (lowered : program.toModule dialect types name = .ok module) :
    ∃ definitions, program.definitions = .ok definitions ∧
      List.Forall₂ (fun definition function => Ir.Function.Reached definition.body function)
        definitions module.functions := by
  obtain ⟨compiled, -⟩ := Lowering.toModule_inv lowered
  refine ⟨compiled.definitions, compiled.areDefinitions, ?_⟩
  apply compiled.origins.imp
  rintro definition function ⟨origin⟩
  exact origin.reached

/-- A function whose statements cut off nothing, and one that goes on after leaving a loop. -/
def nestedArms : Block :=
  [.definition "f" [⟨"a", "u8"⟩] [⟨"r", ""⟩]
    [.loop [.conditional (.identifier "a") []] (.identifier "a") [.conditional (.identifier "a") []]
      [.switch (.identifier "r")
          [⟨some (.number "1" ""), [.block []]⟩, ⟨none, [.switch (.identifier "r") []]⟩],
        .switch (.identifier "a") [⟨some (.number "1" ""), []⟩]]],
    .definition "g" [⟨"a", "u8"⟩] [] [.loop [] (.identifier "a") [] [.breakLoop, .block []]]]

theorem Block.reached_of_toModule_nestedArms :
    (nestedArms.definitions.map fun definitions => definitions.map fun definition =>
        Statement.anyCutsOff definition.body) = .ok [false, true] ∧
      ∃ module, nestedArms.toModule (.empty .strict) .standard "m" = .ok module ∧
        ∃ definitions, nestedArms.definitions = .ok definitions ∧
          List.Forall₂ (fun definition function => Ir.Function.Reached definition.body function)
            definitions module.functions := by
  have isOk : (nestedArms.toModule (.empty .strict) .standard "m").isOk = true := by decide +kernel
  obtain ⟨module, lowered⟩ := Lowering.exists_of_isOk isOk
  exact ⟨rfl, module, lowered, Block.reached_of_toModule lowered⟩

end YulLowering
