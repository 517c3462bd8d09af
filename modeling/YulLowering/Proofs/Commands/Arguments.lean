import YulLowering.CommandLine.Arguments
import YulLowering.Proofs.Attempts

/-!
# A switch among the arguments

A switch changes nothing but that it has been given. Where arguments are accepted with a switch among them
and without it, they ask for the same otherwise, wherever the switch stands.
-/

namespace YulLowering.CommandLine

/-! ## What succeeds after something else -/

/-- Where the second of two attempts succeeds, so does the first, and their results are related. -/
structure Follows {ε α β : Type} (first : Except ε α) (second : Except ε β) (related : α → β → Prop) :
    Prop where
  succeeds : ∀ result, second = .ok result → ∃ value, first = .ok value ∧ related value result

namespace Follows

variable {ε α β γ δ : Type} {first : Except ε α} {second : Except ε β} {related : α → β → Prop}

theorem ok {value : α} {result : β} (holds : related value result) :
    Follows (.ok value : Except ε α) (.ok result) related := by
  constructor
  rintro _ ⟨⟩
  exact ⟨value, rfl, holds⟩

theorem error (reason : ε) : Follows first (.error reason) related :=
  ⟨fun _ failed => nomatch failed⟩

theorem bind {next : α → Except ε γ} {last : β → Except ε δ} {ended : γ → δ → Prop}
    (follows : Follows first second related)
    (then_follows : ∀ value result, related value result → Follows (next value) (last result) ended) :
    Follows (first >>= next) (second >>= last) ended := by
  cases second with
  | error reason => exact error reason
  | ok result =>
      obtain ⟨value, rfl, holds⟩ := follows.succeeds result rfl
      exact then_follows value result holds

theorem map {wrap : α → γ} {rewrap : β → δ} {wrapped : γ → δ → Prop}
    (follows : Follows first second related)
    (wraps : ∀ value result, related value result → wrapped (wrap value) (rewrap result)) :
    Follows (first.map wrap) (second.map rewrap) wrapped := by
  cases second with
  | error reason => exact error reason
  | ok result =>
      obtain ⟨value, rfl, holds⟩ := follows.succeeds result rfl
      exact ok (wraps value result holds)

end Follows

/-! ## A switch that has been given -/

variable {switch : String} {given marked : Given}

/-- The same has been given twice, but for a switch. -/
structure Given.Marks (switch : String) (given marked : Given) : Prop where
  operands_eq : marked.operands = given.operands
  options_eq : ∃ newer older, given.options = newer ++ older ∧
    marked.options = newer ++ (switch, "") :: older

namespace Given.Marks

/-- The values of other options are the same. -/
theorem value?_eq (marks : given.Marks switch marked) {option : String} (other : option ≠ switch) :
    marked.value? option = given.value? option := by
  obtain ⟨newer, older, isGiven, isMarked⟩ := marks.options_eq
  rw [value?, value?, isGiven, isMarked, List.lookup_append, List.lookup_append, List.lookup_cons,
    beq_false_of_ne other]

theorem has (marks : given.Marks switch marked) {option : String} (isGiven : given.has option = true) :
    marked.has option = true := by
  obtain ⟨newer, older, options, marked_options⟩ := marks.options_eq
  rw [Given.has, options, List.any_append, Bool.or_eq_true] at isGiven
  rw [Given.has, marked_options, List.any_append, List.any_cons]
  rcases isGiven with newer_has | older_has
  · rw [newer_has, Bool.true_or]
  · rw [older_has, Bool.or_true, Bool.or_true]

theorem once (marks : given.Marks switch marked) (option value : String) :
    Follows (given.once option value) (marked.once option value) (Given.Marks switch) := by
  unfold Given.once
  cases already : marked.has option with
  | true => exact .error _
  | false =>
      have lacks : ¬ given.has option = true := by
        intro isGiven
        rw [marks.has isGiven] at already
        cases already
      rw [if_neg lacks]
      obtain ⟨newer, older, options, marked_options⟩ := marks.options_eq
      refine .ok ⟨marks.operands_eq, (option, value) :: newer, older, ?_, ?_⟩
      · exact congrArg _ options
      · exact congrArg _ marked_options

theorem assign (marks : given.Marks switch marked) (option : OptionSpec) (value : String) :
    Follows (option.assign value given) (option.assign value marked) (Given.Marks switch) := by
  unfold OptionSpec.assign
  cases option.usage with
  | valued accepts =>
      dsimp only
      split
      · exact marks.once option.name value
      · exact .error _
  | counted | switch | ends => exact .error _

theorem takeOperands (marks : given.Marks switch marked) (limit : Nat) (operands : List String) :
    Follows (CommandLine.takeOperands limit given operands)
      (CommandLine.takeOperands limit marked operands) (Given.Marks switch) := by
  unfold CommandLine.takeOperands
  rw [marks.operands_eq]
  split
  · split
    · exact .error _
    · exact .ok ⟨rfl, marks.options_eq⟩
  · exact .error _

end Given.Marks

/-- The same comes of reading an argument twice, but for a switch. -/
inductive Outcome.Marks (switch : String) : Outcome → Outcome → Prop where
  | goesOn {given marked : Given} (marks : given.Marks switch marked) :
    Marks switch (.goesOn given) (.goesOn marked)
  | awaits (option : OptionSpec) {given marked : Given} (marks : given.Marks switch marked) :
    Marks switch (.awaits option given) (.awaits option marked)
  | ends (request : Request) : Marks switch (.ends request) (.ends request)

/-- What goes on in the same way after each outcome keeps the switch apart. -/
theorem Follows.bind_outcome {ε γ : Type} {first second : Except ε Outcome} {next : Outcome → Except ε γ}
    {ended : γ → γ → Prop} (follows : Follows first second (Outcome.Marks switch))
    (goesOn : ∀ {given marked : Given}, given.Marks switch marked →
      Follows (next (.goesOn given)) (next (.goesOn marked)) ended)
    (awaits : ∀ (option : OptionSpec) {given marked : Given}, given.Marks switch marked →
      Follows (next (.awaits option given)) (next (.awaits option marked)) ended)
    (ends : ∀ request : Request, Follows (next (.ends request)) (next (.ends request)) ended) :
    Follows (first >>= next) (second >>= next) ended := by
  apply follows.bind
  intro outcome marked_outcome marks
  cases marks with
  | goesOn marks => exact goesOn marks
  | awaits option marks => exact awaits option marks
  | ends request => exact ends request

namespace Given.Marks

theorem read (marks : given.Marks switch marked) (option : OptionSpec) :
    Follows (option.read given) (option.read marked) (Outcome.Marks switch) := by
  unfold OptionSpec.read
  cases option.usage with
  | counted => exact .ok (.goesOn marks)
  | switch => exact (marks.once option.name "").map fun _ _ => .goesOn
  | valued => exact .ok (.awaits option marks)
  | ends request => exact .ok (.ends request)

theorem readLong (marks : given.Marks switch marked) (options : List OptionSpec) (written : String)
    (value : Option String) :
    Follows (CommandLine.readLong options written value given)
      (CommandLine.readLong options written value marked) (Outcome.Marks switch) := by
  unfold CommandLine.readLong
  cases options.find? fun option => option.name == written with
  | none => exact .error _
  | some option =>
      cases value with
      | none => exact marks.read option
      | some value => exact (marks.assign option value).map fun _ _ => .goesOn

theorem readLetters (marks : given.Marks switch marked) (options : List OptionSpec)
    (letters : List Char) :
    Follows (CommandLine.readLetters options given letters)
      (CommandLine.readLetters options marked letters) (Outcome.Marks switch) := by
  induction letters generalizing given marked with
  | nil => exact .ok (.goesOn marks)
  | cons letter rest ih =>
      rw [CommandLine.readLetters, CommandLine.readLetters]
      cases options.find? fun option => option.letter == some letter with
      | none => exact .error _
      | some option =>
          dsimp only
          split
          · exact (marks.assign option _).bind fun _ _ marks => .ok (.goesOn marks)
          · exact (marks.assign option _).bind fun _ _ marks => .ok (.goesOn marks)
          · exact (marks.read option).bind_outcome ih (fun option _ _ marks => .ok (.awaits option marks))
              fun request => .ok (.ends request)

theorem readCommand (marks : given.Marks switch marked) (options : List OptionSpec) (limit : Nat)
    (awaiting : Option OptionSpec) (arguments : List String) :
    Follows (CommandLine.readCommand options limit awaiting given arguments)
      (CommandLine.readCommand options limit awaiting marked arguments)
      (Sum.LiftRel (Given.Marks switch) Eq) := by
  induction arguments generalizing awaiting given marked with
  | nil =>
      cases awaiting with
      | none => exact .ok (.inl marks)
      | some option => exact .error _
  | cons argument rest ih =>
      unfold CommandLine.readCommand
      split
      · exact (marks.assign _ _).bind fun _ _ marks => ih marks none
      · exact .error _
      · exact (marks.takeOperands _ _).map fun _ _ => .inl
      · exact (marks.takeOperands _ _).bind fun _ _ marks => ih marks none
      · exact (marks.readLong _ _ _).bind_outcome (fun marks => ih marks none)
          (fun option _ _ marks => ih marks (some option)) fun request => .ok (.inr rfl)
      · exact (marks.readLetters _ _).bind_outcome (fun marks => ih marks none)
          (fun option _ _ marks => ih marks (some option)) fun request => .ok (.inr rfl)

end Given.Marks

/-! ## What is asked for in place of a command -/

/-- A request that options make. -/
def Request.MadeBy (request : Request) (options : List OptionSpec) : Prop :=
  ∃ option ∈ options, option.usage = .ends request

section

variable {options : List OptionSpec} {request : Request}

theorem usage_of_read {option : OptionSpec} (read : option.read given = .ok (.ends request)) :
    option.usage = .ends request := by
  unfold OptionSpec.read at read
  split at read
  · cases read
  · obtain ⟨_, -, impossible⟩ := map_ok_inv read
    cases impossible
  · cases read
  · next ends =>
    cases read
    exact ends

theorem madeBy_of_readLong {written : String} {value : Option String}
    (read : readLong options written value given = .ok (.ends request)) : request.MadeBy options := by
  unfold readLong at read
  split at read
  · cases read
  · obtain ⟨_, -, impossible⟩ := map_ok_inv read
    cases impossible
  · next option found => exact ⟨option, List.mem_of_find?_eq_some found, usage_of_read read⟩

theorem madeBy_of_readLetters {letters : List Char}
    (read : readLetters options given letters = .ok (.ends request)) : request.MadeBy options := by
  induction letters generalizing given with
  | nil => cases read
  | cons letter rest ih =>
      rw [readLetters] at read
      cases found : options.find? fun option => option.letter == some letter with
      | none =>
          rw [found] at read
          cases read
      | some option =>
          rw [found] at read
          dsimp only at read
          split at read
          · obtain ⟨_, -, impossible⟩ := bind_ok_inv read
            cases impossible
          · obtain ⟨_, -, impossible⟩ := bind_ok_inv read
            cases impossible
          · obtain ⟨outcome, taken, read⟩ := bind_ok_inv read
            cases outcome with
            | goesOn given => exact ih read
            | awaits other given => cases read
            | ends other =>
                cases read
                exact ⟨option, List.mem_of_find?_eq_some found, usage_of_read taken⟩

theorem madeBy_of_readCommand {limit : Nat} {awaiting : Option OptionSpec} {arguments : List String}
    (read : readCommand options limit awaiting given arguments = .ok (.inr request)) :
    request.MadeBy options := by
  induction arguments generalizing awaiting given with
  | nil => cases awaiting <;> cases read
  | cons argument rest ih =>
      unfold readCommand at read
      split at read
      · obtain ⟨_, -, read⟩ := bind_ok_inv read
        exact ih read
      · cases read
      · obtain ⟨_, -, impossible⟩ := map_ok_inv read
        cases impossible
      · obtain ⟨_, -, read⟩ := bind_ok_inv read
        exact ih read
      · obtain ⟨outcome, taken, read⟩ := bind_ok_inv read
        cases outcome with
        | goesOn | awaits => exact ih read
        | ends other =>
            cases read
            exact madeBy_of_readLong taken
      · obtain ⟨outcome, taken, read⟩ := bind_ok_inv read
        cases outcome with
        | goesOn | awaits => exact ih read
        | ends other =>
            cases read
            exact madeBy_of_readLetters taken

end

/-! ## A switch more or less -/

/-- Operands are taken where there is room for them. -/
theorem operands_of_takeOperands {limit : Nat} {taken : Given} {operands : List String}
    (takes : takeOperands limit given operands = .ok taken) :
    operands.length ≤ limit - given.operands.length ∧ taken.operands = given.operands ++ operands := by
  unfold takeOperands at takes
  split at takes
  · next none_left =>
    split at takes
    · cases takes
    · cases takes
      exact ⟨List.drop_eq_nil_iff.mp none_left, rfl⟩
  · cases takes

/-- Arguments are left to be taken after a switch as they are without it. -/
theorem marks_of_switched {after : List String} {plain : Given}
    (read : readCommand lowerOptions 1 none given after = .ok (.inl plain))
    (also : readCommand lowerOptions 1 none given ("--no-validate" :: after) = .ok (.inl marked)) :
    plain.Marks "no-validate" marked := by
  obtain ⟨outcome, taken, also⟩ := bind_ok_inv also
  obtain ⟨switched, once, rfl⟩ := map_ok_inv taken
  have marks : given.Marks "no-validate" switched := by
    unfold Given.once at once
    split at once
    · cases once
    · cases once
      exact ⟨rfl, [], given.options, rfl, rfl⟩
  obtain ⟨value, alone, marks⟩ := (marks.readCommand _ _ _ after).succeeds _ also
  cases read.symm.trans alone
  cases marks with
  | inl marks => exact marks

/-- Where an operand more is taken among others, there is none without it: there is room for one. -/
theorem operands_eq_nil_of_takeOperands {before after : List String} {extra : String}
    {plain marked : Given} (takes : takeOperands 1 given (before ++ after) = .ok plain)
    (also : takeOperands 1 given (before ++ extra :: after) = .ok marked) : plain.operands = [] := by
  obtain ⟨-, operands_eq⟩ := operands_of_takeOperands takes
  obtain ⟨room, -⟩ := operands_of_takeOperands also
  apply List.eq_nil_of_length_eq_zero
  rw [operands_eq, List.length_append, List.length_append]
  rw [List.length_append, List.length_cons] at room
  omega

/-- The arguments of a command that are accepted with and without a switch that leaves out validation. -/
theorem marks_of_readCommand {awaiting : Option OptionSpec} {plain : Given} (before after : List String)
    (read : readCommand lowerOptions 1 awaiting given (before ++ after) = .ok (.inl plain))
    (also : readCommand lowerOptions 1 awaiting given (before ++ "--no-validate" :: after) =
      .ok (.inl marked))
    (has_operand : plain.operands ≠ []) : plain.Marks "no-validate" marked := by
  induction before generalizing awaiting given with
  | nil =>
      cases awaiting with
      | some option => cases also
      | none => exact marks_of_switched read also
  | cons argument rest ih =>
      rw [List.cons_append] at read also
      unfold readCommand at read also
      cases awaiting with
      | some option =>
          cases written : Written.ofString argument with
          | operand value =>
              rw [written] at read also
              obtain ⟨assigned, read, also⟩ := bind_ok_inv_both read also
              exact ih read also
          | separator | long | letters =>
              rw [written] at read
              cases read
      | none =>
          cases written : Written.ofString argument with
          | separator =>
              -- Behind the separator the switch would be an operand, and one of them is there already.
              rw [written] at read also
              obtain ⟨taken, takes, inl_taken⟩ := map_ok_inv read
              obtain ⟨_, takes_too, -⟩ := map_ok_inv also
              cases inl_taken
              exact absurd (operands_eq_nil_of_takeOperands takes takes_too) has_operand
          | operand operand =>
              rw [written] at read also
              obtain ⟨taken, read, also⟩ := bind_ok_inv_both read also
              exact ih read also
          | long name value =>
              rw [written] at read also
              obtain ⟨outcome, read, also⟩ := bind_ok_inv_both read also
              cases outcome with
              | goesOn | awaits => exact ih read also
              | ends => cases read
          | letters letters =>
              rw [written] at read also
              obtain ⟨outcome, read, also⟩ := bind_ok_inv_both read also
              cases outcome with
              | goesOn | awaits => exact ih read also
              | ends => cases read

/-- What is asked for in place of a command is help or the version. -/
theorem Request.MadeBy.ne_lower {request : Request} {options : List OptionSpec}
    (made : request.MadeBy options)
    (known : options ∈ [lowerOptions, builtinsOptions, programOptions]) (input : String)
    (configured output : Option String) (noValidate : Bool) :
    request ≠ .lower input configured output noValidate := by
  obtain ⟨option, member, ends⟩ := made
  have no_lower : ∀ options ∈ [lowerOptions, builtinsOptions, programOptions], ∀ option ∈ options,
      option.usage ≠ .ends (.lower input configured output noValidate) := by
    simp [lowerOptions, builtinsOptions, programOptions, commonOptions, pathOption]
  rintro rfl
  exact no_lower options known option member ends

/-- What a request to lower a program has been read from. -/
theorem readLower_inv {arguments : List String} {input : String} {configured output : Option String}
    {noValidate : Bool} (read : readLower arguments = .ok (.lower input configured output noValidate)) :
    ∃ given, readCommand lowerOptions 1 none .nothing arguments = .ok (.inl given) ∧
      given.operands.head? = some input ∧ given.value? "config" = configured ∧
      given.value? "output" = output := by
  obtain ⟨result, taken, rest⟩ := bind_ok_inv read
  cases result with
  | inr request =>
      cases rest
      exact absurd rfl ((madeBy_of_readCommand taken).ne_lower (by simp) _ _ _ _)
  | inl given =>
      dsimp only at rest
      split at rest
      · cases rest
      · next operands =>
        cases rest
        exact ⟨given, taken, by rw [operands]; rfl, rfl, rfl⟩

theorem lower_eq_of_readLower {before after : List String} {input input' : String}
    {configured configured' output output' : Option String} {noValidate noValidate' : Bool}
    (read : readLower (before ++ after) = .ok (.lower input configured output noValidate))
    (also : readLower (before ++ "--no-validate" :: after) =
      .ok (.lower input' configured' output' noValidate')) :
    input' = input ∧ configured' = configured ∧ output' = output := by
  obtain ⟨plain, plainly, isInput, rfl, rfl⟩ := readLower_inv read
  obtain ⟨marked, with_switch, isInput', rfl, rfl⟩ := readLower_inv also
  have has_operand : plain.operands ≠ [] := by
    intro none_given
    rw [none_given] at isInput
    cases isInput
  have marks := marks_of_readCommand before after plainly with_switch has_operand
  rw [marks.operands_eq, isInput] at isInput'
  exact ⟨(Option.some.inj isInput').symm, marks.value?_eq (by decide), marks.value?_eq (by decide)⟩

/-- A program is lowered only where the command to do so is read. -/
theorem lower_of_readRequest {command : String} {arguments : List String} {input : String}
    {configured output : Option String} {noValidate : Bool}
    (read : readRequest command arguments = .ok (.lower input configured output noValidate)) :
    command = "lower" := by
  unfold readRequest at read
  split at read
  · rfl
  · obtain ⟨result, taken, rest⟩ := bind_ok_inv read
    cases result with
    | inr request =>
        cases rest
        exact absurd rfl ((madeBy_of_readCommand taken).ne_lower (by simp) _ _ _ _)
    | inl given => cases rest
  · unfold readHelp at read
    split at read <;> cases read
  · cases read

/-- What is asked for has been read from the arguments of the command, whatever stands in front of it. -/
theorem readRequest_of_asked {given : Except UsageFault Given} {command : String}
    {arguments : List String} {request : Request}
    (asked : (do
      let request ← readRequest command arguments
      if request = Request.help then return request
      let _ ← given
      return request) = .ok request) : readRequest command arguments = .ok request := by
  obtain ⟨other, read, asked⟩ := bind_ok_inv asked
  split at asked
  · cases asked
    exact read
  · obtain ⟨_, -, asked⟩ := bind_ok_inv asked
    cases asked
    exact read

theorem lower_eq_of_readProgram {awaiting : Option OptionSpec} {given : Except UsageFault Given}
    (before after : List String) {input input' : String} {configured configured' output output' : Option String}
    {noValidate noValidate' : Bool}
    (read : readProgram awaiting given (before ++ after) =
      .ok (.lower input configured output noValidate))
    (also : readProgram awaiting given (before ++ "--no-validate" :: after) =
      .ok (.lower input' configured' output' noValidate')) :
    input' = input ∧ configured' = configured ∧ output' = output := by
  induction before generalizing awaiting given with
  | nil =>
      -- In front of the command there is no such switch.
      cases awaiting with
      | some option => cases also
      | none =>
          obtain ⟨_, -, impossible⟩ := bind_ok_inv also
          cases impossible
  | cons argument rest ih =>
      rw [List.cons_append] at read also
      unfold readProgram at read also
      cases awaiting with
      | some option =>
          cases written : Written.ofString argument with
          | operand value =>
              rw [written] at read also
              exact ih read also
          | separator | long | letters =>
              rw [written] at read
              cases read
      | none =>
          cases written : Written.ofString argument with
          | separator =>
              rw [written] at read
              dsimp only at read
              split at read <;> cases read
          | operand command =>
              rw [written] at read also
              have read := readRequest_of_asked read
              have also := readRequest_of_asked also
              obtain rfl := lower_of_readRequest read
              exact lower_eq_of_readLower read also
          | long name value =>
              rw [written] at read also
              obtain ⟨given, read, also⟩ := bind_ok_inv_both read also
              obtain ⟨outcome, read, also⟩ := bind_ok_inv_both read also
              cases outcome with
              | goesOn | awaits => exact ih read also
              | ends =>
                  cases read
                  cases also
                  exact ⟨rfl, rfl, rfl⟩
          | letters letters =>
              rw [written] at read also
              obtain ⟨given, read, also⟩ := bind_ok_inv_both read also
              obtain ⟨outcome, read, also⟩ := bind_ok_inv_both read also
              cases outcome with
              | goesOn | awaits => exact ih read also
              | ends =>
                  cases read
                  cases also
                  exact ⟨rfl, rfl, rfl⟩

/-- Arguments that are accepted with and without the switch that leaves out validation ask for the same
program to be lowered to the same place under the same settings. -/
theorem Request.lower_eq_of_ofArguments {before after : List String} {input input' : String}
    {configured configured' output output' : Option String} {noValidate noValidate' : Bool}
    (read : ofArguments (before ++ after) = .ok (.lower input configured output noValidate))
    (also : ofArguments (before ++ "--no-validate" :: after) =
      .ok (.lower input' configured' output' noValidate')) :
    input' = input ∧ configured' = configured ∧ output' = output :=
  lower_eq_of_readProgram before after read also

end YulLowering.CommandLine
