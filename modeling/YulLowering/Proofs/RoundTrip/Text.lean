import YulLowering.Json.Reader
import YulLowering.Json.Writer

/-!
# Reading text that has been written

Text that has been written is read back from left to right: a reader takes the characters of one part off
the text and stops where the next part begins, whatever that is. The rules here say so for the parts of a
value, from the characters of a string to containers. Numbers are left out, since only what follows a
number tells where it ends.
-/

namespace YulLowering.Json

mutual

/-- Whether no number occurs in a value. -/
def isNumberless : Json → Bool
  | null | bool _ | string _ => true
  | number _ => false
  | array elements => areNumberless elements
  | object members => haveNoNumbers members

/-- Whether no number occurs in several elements. -/
def areNumberless : List Json → Bool
  | [] => true
  | element :: rest => element.isNumberless && areNumberless rest

/-- Whether no number occurs in several members. -/
def haveNoNumbers : List (String × Json) → Bool
  | [] => true
  | (_, value) :: rest => value.isNumberless && haveNoNumbers rest

end

namespace Reader

variable {α β σ : Type}

/-- A reader takes certain characters off the front of any text and gives a result. -/
def Takes (reader : Reader α) (front : List Char) (result : α) : Prop :=
  ∀ rest, reader (front ++ rest) = .ok (result, rest)

namespace Takes

variable {reader : Reader α} {next : α → Reader β} {front more : List Char} {value : α} {result : β}

theorem pure (value : α) : Takes (Pure.pure value) [] value :=
  fun _ => rfl

/-- Two readers in a row. -/
theorem bind (first : Takes reader front value) (second : Takes (next value) more result) :
    Takes (reader >>= next) (front ++ more) result := by
  intro rest
  change (reader (front ++ more ++ rest) >>= fun (value, text) => next value text) = _
  rw [List.append_assoc, first]
  exact second rest

/-- The second of two readers need not take anything. -/
theorem bind_nil (first : Takes reader front value) (second : Takes (next value) [] result) :
    Takes (reader >>= next) front result := by
  have both := first.bind second
  rwa [List.append_nil] at both

theorem bind_pure (first : Takes reader front value) (wrap : α → β) :
    Takes (reader >>= fun value => Pure.pure (wrap value)) front (wrap value) :=
  first.bind_nil (.pure (wrap value))

theorem map (wrap : α → β) (takes : Takes reader front value) :
    Takes (wrap <$> reader) front (wrap value) := by
  rw [map_eq_pure_bind]
  exact takes.bind_pure wrap

/-- A character that is looked at stays in the text. -/
theorem peek_bind {character : Char} {next : Char → Reader β} (visible : isBlank character = false)
    (takes : Takes (next character) (character :: front) result) :
    Takes (peek >>= next) (character :: front) result := by
  intro rest
  have stays : skipBlanks (character :: front ++ rest) = character :: (front ++ rest) := by
    rw [skipBlanks, List.cons_append, List.dropWhile_cons_of_neg (by simp [visible])]
  change (peek (character :: front ++ rest) >>= fun (value, text) => next value text) = _
  rw [peek, stays]
  exact takes rest

theorem advance_bind {character : Char} {next : Unit → Reader β} (takes : Takes (next ()) front result) :
    Takes (advance >>= next) (character :: front) result :=
  fun rest => takes rest

end Takes

theorem takes_expect {character : Char} (visible : isBlank character = false) :
    Takes (expect character) [character] () := by
  apply Takes.peek_bind visible
  rw [if_pos rfl]
  exact fun _ => rfl

theorem takes_keyword (letters : List Char) : Takes (keyword letters) letters () := by
  induction letters with
  | nil => exact .pure ()
  | cons letter others ih =>
      intro rest
      rw [keyword, List.cons_append]
      change (if letter = letter then keyword others (others ++ rest) else _) = _
      rw [if_pos rfl]
      exact ih rest

/-! ## Strings -/

theorem takes_escape_letter {character letter : Char} (has : escapeLetter? character = some letter) :
    Takes escape [letter] character := by
  unfold escapeLetter? at has
  split at has
  all_goals cases has
  all_goals exact fun _ => rfl

/-- A control character is read back from the two digits that are written of it. -/
theorem takes_escape_digits {character : Char} (control : character.toNat < 0x20) :
    Takes escape ['u', '0', '0', Nat.digitChar (character.toNat / 16),
      Nat.digitChar (character.toNat % 16)] character := by
  have digits : ∀ code < 0x20,
      ['0', '0', Nat.digitChar (code / 16), Nat.digitChar (code % 16)].mapM (digit? 16) =
        some [0, 0, code / 16, code % 16] := by decide
  have small : ∀ code < 0x20, ofDigits 16 [0, 0, code / 16, code % 16] = code ∧
      isLowSurrogate code = false ∧ isHighSurrogate code = false := by decide
  obtain ⟨isCode, notLow, notHigh⟩ := small _ control
  intro rest
  change unicodeEscape ('0' :: '0' :: Nat.digitChar (character.toNat / 16) ::
    Nat.digitChar (character.toNat % 16) :: rest) = _
  have read : Takes hexQuad ['0', '0', Nat.digitChar (character.toNat / 16),
      Nat.digitChar (character.toNat % 16)] character.toNat := by
    intro rest
    simp only [hexQuad, List.cons_append, List.nil_append]
    rw [digits _ control]
    simp only [isCode]
  refine (read.bind_nil ?_) rest
  simp only [notLow, notHigh, Bool.false_eq_true, if_false]
  intro rest
  rw [Char.ofNat_toNat]
  rfl

theorem takes_stringBody_cons {character : Char} {fuel : Nat} {front others : List Char}
    (takes : Takes (stringBody fuel) front others) :
    Takes (stringBody (fuel + 1)) (escapeCharacter character ++ front) (character :: others) := by
  have escaped {written : List Char} (read : Takes escape written character) :
      Takes (stringBody (fuel + 1)) ('\\' :: written ++ front) (character :: others) := by
    intro rest
    rw [stringBody]
    exact (read.bind (takes.bind_pure (character :: ·))) rest
  unfold escapeCharacter
  split
  next letter has => exact escaped (takes_escape_letter has)
  next none_has =>
    split
    next control => exact escaped (takes_escape_digits control)
    next plain =>
      have quote : character ≠ '"' := by
        rintro rfl
        cases none_has
      have backslash : character ≠ '\\' := by
        rintro rfl
        cases none_has
      intro rest
      rw [stringBody, List.singleton_append, List.cons_append]
      dsimp only
      split
      next isNil => cases isNil
      next isQuote => exact absurd (List.cons.inj isQuote).1 quote
      next isBackslash => exact absurd (List.cons.inj isBackslash).1 backslash
      next same =>
        cases same
        rw [if_neg plain]
        exact (takes.bind_pure (character :: ·)) rest

/-- The characters of a string are read back up to the closing quote. -/
theorem takes_stringBody {characters : List Char} {fuel : Nat} (enough : characters.length < fuel) :
    Takes (stringBody fuel) (characters.flatMap escapeCharacter ++ ['"']) characters := by
  induction characters generalizing fuel with
  | nil =>
      cases fuel with
      | zero => cases enough
      | succ fuel => exact fun _ => rfl
  | cons character others ih =>
      cases fuel with
      | zero => cases enough
      | succ fuel =>
          rw [List.flatMap_cons, List.append_assoc]
          exact takes_stringBody_cons (ih (Nat.lt_of_succ_lt_succ enough))

theorem takes_string {contents : String} {fuel : Nat} (enough : contents.toList.length < fuel) :
    Takes (string fuel) (contents.toList.flatMap escapeCharacter ++ ['"']) contents := by
  have takes := (takes_stringBody enough).bind_pure String.ofList
  rwa [String.ofList_toList] at takes

/-- A string takes at least as much room as it has characters, its quotes aside. -/
theorem length_lt_quotedCharacters (contents : String) :
    contents.toList.length + 1 < (quotedCharacters contents).length := by
  have shortest : ∀ characters : List Char,
      characters.length ≤ (characters.flatMap escapeCharacter).length := by
    intro characters
    induction characters with
    | nil => exact Nat.le_refl 0
    | cons character others ih =>
        have written : 1 ≤ (escapeCharacter character).length := by
          unfold escapeCharacter
          split
          · simp
          · split <;> simp
        rw [List.flatMap_cons, List.length_append, List.length_cons]
        omega
  have room := shortest contents.toList
  rw [quotedCharacters, List.length_cons, List.length_append, List.length_singleton]
  omega

theorem takes_memberName {name : String} {fuel : Nat}
    (enough : (quotedCharacters name).length ≤ fuel) :
    Takes (memberName fuel) (quotedCharacters name) name := by
  have room := length_lt_quotedCharacters name
  exact (takes_expect rfl).bind (takes_string (by omega))

/-! ## Containers -/

/-- A text that starts with an item: with a character that is neither blank nor closes the container. -/
def Starts (closing : Char) (text : List Char) : Prop :=
  ∃ character ∈ text.head?, isBlank character = false ∧ character ≠ closing

section

variable {ι : Type} {closing : Char} {item : σ → Reader σ} {text : ι → List Char} {add : σ → ι → σ}

/-- The items of a container after its first one, each behind a comma. -/
theorem takes_moreItems (entries : List ι) {fuel : Nat} (state : σ)
    (visible : isBlank closing = false) (isOther : closing ≠ ',')
    (each : ∀ entry ∈ entries, ∀ state, Takes (item state) (text entry) (add state entry))
    (enough : entries.length < fuel) :
    Takes (moreItems closing item fuel state)
      (entries.flatMap (fun entry => ',' :: text entry) ++ [closing]) (entries.foldl add state) := by
  induction entries generalizing fuel state with
  | nil =>
      cases fuel with
      | zero => cases enough
      | succ fuel =>
          rw [moreItems]
          apply Takes.peek_bind visible
          rw [if_pos rfl]
          exact fun _ => rfl
  | cons entry others ih =>
      cases fuel with
      | zero => cases enough
      | succ fuel =>
          rw [moreItems, List.flatMap_cons, List.cons_append, List.cons_append, List.append_assoc]
          apply Takes.peek_bind rfl
          rw [if_neg isOther.symm, if_pos rfl]
          apply Takes.advance_bind
          apply (each entry List.mem_cons_self state).bind
          exact ih (add state entry) (fun other member => each other (List.mem_cons_of_mem entry member))
            (Nat.lt_of_succ_lt_succ enough)

/-- The items of a container that has some. The first one may change the state in its own way. -/
theorem takes_items_cons {first : List Char} {rest : List ι} {fuel : Nat} {state later : σ}
    (visible : isBlank closing = false) (isOther : closing ≠ ',') (starts : Starts closing first)
    (takes : Takes (item state) first later)
    (each : ∀ entry ∈ rest, ∀ state, Takes (item state) (text entry) (add state entry))
    (enough : rest.length < fuel) :
    Takes (items closing item fuel state)
      (first ++ (rest.flatMap (fun entry => ',' :: text entry) ++ [closing])) (rest.foldl add later) := by
  obtain ⟨character, isFirst, notBlank, notClosing⟩ := starts
  obtain ⟨others, rfl⟩ : ∃ others, first = character :: others := by
    cases first with
    | nil => cases isFirst
    | cons other others =>
        cases isFirst
        exact ⟨others, rfl⟩
  rw [List.cons_append]
  apply Takes.peek_bind notBlank
  rw [if_neg notClosing, ← List.cons_append]
  exact takes.bind (takes_moreItems rest later visible isOther each enough)

/-- A container without items. -/
theorem takes_items_nil {fuel : Nat} {state : σ} (visible : isBlank closing = false) :
    Takes (items closing item fuel state) [closing] state := by
  apply Takes.peek_bind visible
  rw [if_pos rfl]
  exact fun _ => rfl

end

end Reader

/-- The texts of entries with commas between them. -/
def separated {ι : Type} (text : ι → List Char) : List ι → List Char
  | [] => []
  | entry :: rest => text entry ++ rest.flatMap fun other => ',' :: text other

section

variable {ι : Type} {entries : List ι}

/-- Entries behind commas take at least one character each. -/
theorem length_le_flatMap_comma (text : ι → List Char) (entries : List ι) :
    entries.length ≤ (entries.flatMap fun entry => ',' :: text entry).length := by
  induction entries with
  | nil => exact Nat.le_refl 0
  | cons entry rest ih =>
      rw [List.flatMap_cons, List.length_append, List.length_cons, List.length_cons]
      omega

theorem length_lt_flatMap_comma (text : ι → List Char) {entry : ι} (member : entry ∈ entries) :
    (text entry).length < (entries.flatMap fun entry => ',' :: text entry).length := by
  have written : (',' :: text entry) ∈ entries.map fun entry => ',' :: text entry :=
    List.mem_map_of_mem member
  have within := (List.sublist_flatten_of_mem written).length_le
  rwa [← List.flatMap_def, List.length_cons] at within

theorem length_le_separated (text : ι → List Char) {entry : ι} (member : entry ∈ entries) :
    (text entry).length ≤ (separated text entries).length := by
  cases entries with
  | nil => cases member
  | cons first rest =>
      rw [separated, List.length_append]
      rcases List.mem_cons.mp member with rfl | isRest
      · exact Nat.le_add_right _ _
      · have within := length_lt_flatMap_comma text isRest
        omega

/-- Every entry but the first has a comma. -/
theorem length_entries_le (text : ι → List Char) (entries : List ι) :
    entries.length ≤ (separated text entries).length + 1 := by
  cases entries with
  | nil => exact Nat.zero_le _
  | cons first rest =>
      have commas := length_le_flatMap_comma text rest
      rw [separated, List.length_append, List.length_cons]
      omega

/-- What appends each item to those before it gives all of them. -/
theorem Reader.takes_items {text : ι → List Char} {closing : Char}
    {item : List ι → Reader (List ι)} {fuel : Nat}
    (visible : isBlank closing = false) (isOther : closing ≠ ',')
    (starts : ∀ entry ∈ entries, Starts closing (text entry))
    (each : ∀ entry ∈ entries, ∀ state, Takes (item state) (text entry) (state ++ [entry]))
    (enough : entries.length ≤ fuel) :
    Takes (items closing item fuel []) (separated text entries ++ [closing]) entries := by
  cases entries with
  | nil => exact takes_items_nil visible
  | cons first rest =>
      have gathered :
          rest.foldl (fun taken entry => taken ++ [entry]) ([] ++ [first]) = first :: rest := by
        rw [List.foldl_append_eq_append, ← List.flatMap_def, List.flatMap_singleton']
        rfl
      have takes := takes_items_cons visible isOther (starts first List.mem_cons_self)
        (each first List.mem_cons_self []) (fun entry member =>
          each entry (List.mem_cons_of_mem first member)) enough
      rw [separated, List.append_assoc]
      rwa [gathered] at takes

theorem separated_map {κ : Type} (text : ι → List Char) (form : κ → ι) (entries : List κ) :
    separated text (entries.map form) = separated (fun entry => text (form entry)) entries := by
  cases entries with
  | nil => rfl
  | cons first rest => rw [List.map_cons, separated, separated, List.flatMap_map]

end

theorem elementCharacters_eq : ∀ elements : List Json,
    elementCharacters elements = separated characters elements
  | [] => rfl
  | [element] => by simp [elementCharacters, separated]
  | element :: other :: rest => by
      rw [elementCharacters, elementCharacters_eq (other :: rest)]
      · simp [separated]
      · simp

/-- A member with its name. -/
def memberText (member : String × Json) : List Char :=
  quotedCharacters member.1 ++ ':' :: member.2.characters

theorem memberCharacters_eq : ∀ members : List (String × Json),
    memberCharacters members = separated memberText members
  | [] => rfl
  | [member] => by simp [memberCharacters, separated, memberText]
  | member :: other :: rest => by
      rw [memberCharacters, memberCharacters_eq (other :: rest)]
      · simp [separated, memberText]
      · simp

/-! ## Values -/

theorem depth_le_depthOfElements {elements : List Json} {element : Json} (member : element ∈ elements) :
    element.depth ≤ depthOfElements elements := by
  induction elements with
  | nil => cases member
  | cons first rest ih =>
      rw [depthOfElements]
      rcases List.mem_cons.mp member with rfl | isRest
      · exact Nat.le_max_left _ _
      · exact Nat.le_trans (ih isRest) (Nat.le_max_right _ _)

theorem depth_le_depthOfMembers {members : List (String × Json)} {member : String × Json}
    (isMember : member ∈ members) : member.2.depth ≤ depthOfMembers members := by
  induction members with
  | nil => cases isMember
  | cons first rest ih =>
      rw [depthOfMembers]
      rcases List.mem_cons.mp isMember with rfl | isRest
      · exact Nat.le_max_left _ _
      · exact Nat.le_trans (ih isRest) (Nat.le_max_right _ _)

namespace Reader

theorem starts_characters {value : Json} (numberless : value.isNumberless = true) :
    Starts ']' value.characters := by
  cases value with
  | number => cases numberless
  | bool value => cases value <;> exact ⟨_, rfl, by decide⟩
  | null | string | array | object => exact ⟨_, rfl, by decide⟩

theorem starts_memberText (member : String × Json) : Starts '\x7d' (memberText member) :=
  ⟨'"', rfl, by decide⟩

/-- Where there is room for the text of a value and its containers do not lie too deep, it is read back. -/
def ReadsBack (json : Json) : Prop :=
  ∀ fuel depth, json.characters.length ≤ fuel → json.depth ≤ depth →
    Takes (value fuel depth) json.characters json

theorem readsBack_string (contents : String) : ReadsBack (.string contents) := by
  intro fuel depth room _
  have shorter := length_lt_quotedCharacters contents
  rw [characters] at room
  cases fuel with
  | zero => omega
  | succ fuel =>
      rw [value.eq_def, characters, quotedCharacters]
      apply Takes.peek_bind rfl
      apply Takes.advance_bind
      exact (takes_string (by omega)).map Json.string

theorem readsBack_array {elements : List Json}
    (each : ∀ element ∈ elements, element.isNumberless = true ∧ ReadsBack element) :
    ReadsBack (.array elements) := by
  intro fuel depth room shallow
  have count := length_entries_le characters elements
  rw [characters, elementCharacters_eq, List.length_cons, List.length_append,
    List.length_singleton] at room
  rw [Json.depth] at shallow
  cases fuel with
  | zero => omega
  | succ fuel =>
      cases depth with
      | zero => omega
      | succ depth =>
          rw [value, characters, elementCharacters_eq]
          apply Takes.peek_bind rfl
          apply Takes.advance_bind
          refine (takes_items rfl (by decide)
            (fun element member => starts_characters (each element member).1) ?_ (by omega)).map
              Json.array
          intro element member taken
          have within := length_le_separated characters member
          have inside := depth_le_depthOfElements member
          exact ((each element member).2 fuel depth (by omega) (by omega)).bind_pure
            fun next => taken ++ [next]

theorem readsBack_object {members : List (String × Json)}
    (each : ∀ member ∈ members, ReadsBack member.2) : ReadsBack (.object members) := by
  intro fuel depth room shallow
  have count := length_entries_le memberText members
  rw [characters, memberCharacters_eq, List.length_cons, List.length_append,
    List.length_singleton] at room
  rw [Json.depth] at shallow
  cases fuel with
  | zero => omega
  | succ fuel =>
      cases depth with
      | zero => omega
      | succ depth =>
          rw [value, characters, memberCharacters_eq]
          apply Takes.peek_bind rfl
          apply Takes.advance_bind
          refine (takes_items rfl (by decide) (fun member _ => starts_memberText member) ?_
            (by omega)).map Json.object
          intro member isMember taken
          have within := length_le_separated memberText isMember
          have inside := depth_le_depthOfMembers isMember
          rw [memberText, List.length_append, List.length_cons] at within
          apply (takes_memberName (by omega)).bind
          apply (takes_expect rfl).bind
          exact (each member isMember fuel depth (by omega) (by omega)).bind_pure
            fun next => taken ++ [(member.1, next)]

mutual

/-- Every value without numbers is read back. -/
theorem readsBack : ∀ json : Json, json.isNumberless = true → ReadsBack json
  | .null, _ => by
      intro fuel depth room _
      cases fuel with
      | zero => cases room
      | succ fuel =>
          rw [value.eq_def]
          apply Takes.peek_bind rfl
          apply Takes.advance_bind
          exact (takes_keyword _).bind_pure fun _ => Json.null
  | .bool truth, _ => by
      intro fuel depth room _
      cases fuel with
      | zero => cases truth <;> cases room
      | succ fuel =>
          rw [value.eq_def]
          cases truth
          all_goals apply Takes.peek_bind rfl
          all_goals apply Takes.advance_bind
          all_goals exact (takes_keyword _).bind_pure fun _ => _
  | .number _, numberless => by cases numberless
  | .string contents, _ => readsBack_string contents
  | .array elements, numberless => by
      rw [isNumberless] at numberless
      exact readsBack_array (readsBack_elements elements numberless)
  | .object members, numberless => by
      rw [isNumberless] at numberless
      exact readsBack_object (readsBack_members members numberless)

theorem readsBack_elements : ∀ elements : List Json, areNumberless elements = true →
    ∀ element ∈ elements, element.isNumberless = true ∧ ReadsBack element
  | [], _, _, member => by cases member
  | first :: rest, numberless, element, member => by
      rw [areNumberless, Bool.and_eq_true] at numberless
      cases member with
      | head => exact ⟨numberless.1, readsBack first numberless.1⟩
      | tail _ isRest => exact readsBack_elements rest numberless.2 element isRest

theorem readsBack_members : ∀ members : List (String × Json), haveNoNumbers members = true →
    ∀ member ∈ members, ReadsBack member.2
  | [], _, _, isMember => by cases isMember
  | (name, content) :: rest, numberless, member, isMember => by
      rw [haveNoNumbers, Bool.and_eq_true] at numberless
      cases isMember with
      | head => exact readsBack content numberless.1
      | tail _ isRest => exact readsBack_members rest numberless.2 member isRest

end

end Reader

end YulLowering.Json
