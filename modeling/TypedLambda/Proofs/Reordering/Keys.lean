import TypedLambda.Proofs.Reordering.Relation
import TypedLambda.Proofs.Sorting
import TypedLambda.Proofs.Ty.PrintedTypes
import TypedLambda.Term.Equivalence

namespace TypedLambda

/-!
# Keys can be taken apart

The key of a term starts with a word that tells its form. Behind the word
stands the identifier, if the form has one, and behind that stand the keys of
the parts. Where the parts are operands in any order, their keys are sorted.
If no name uses a sign that separates these from each other, a key gives all
of them back.
-/

/-- A name without separating signs and a type that is built from letters. -/
structure Identifier.IsPlain (identifier : Identifier) : Prop where
  name : ∀ character ∈ identifier.name.toList, Text.IsInner character ∧ character ≠ ':'
  ty : identifier.ty.isLettered = true

/-- A letter, a numeral, an underscore or a prime. -/
def Text.isNameCharacter (character : Char) : Bool :=
  Text.isLetter character || Text.isNumeral character ||
    character == '_' || character == '\x27'

/-- A name of letters, numerals, underscores and primes, with a type built from letters. -/
def Identifier.IsOrdinary (identifier : Identifier) : Prop :=
  identifier.name.toList.all Text.isNameCharacter = true ∧
    identifier.ty.isLettered = true

instance (identifier : Identifier) : Decidable identifier.IsOrdinary :=
  inferInstanceAs (Decidable (_ ∧ _))

/-- No character of an ordinary name separates anything in a key. -/
theorem Text.isInner_of_isNameCharacter
    {character : Char}
    (ofName : Text.isNameCharacter character = true) :
    Text.IsInner character ∧ character ≠ ':' := by
  have noneOfName :
      ['(', '<', ')', '>', ',', ':'].all (!Text.isNameCharacter ·) = true := by
    decide +kernel
  have notOfName (sign : Char) (member : sign ∈ ['(', '<', ')', '>', ',', ':']) :
      sign ≠ character := by
    intro same
    have noName := List.all_eq_true.mp noneOfName sign member
    simp [same, ofName] at noName
  constructor
  · intro member
    exact notOfName character (List.mem_append_left [':'] member) rfl
  · exact (notOfName ':' (by simp)).symm

/-- Digits may stand in names. -/
theorem Text.isNameCharacter_of_isDigit
    {character : Char}
    (digit : character.isDigit = true) :
    Text.isNameCharacter character = true := by
  have plain : Text.isPlainDigit character = true := by
    simp only [Char.isDigit, Text.isPlainDigit, Bool.and_eq_true,
      decide_eq_true_eq] at digit ⊢
    exact digit
  have bound : character.toNat ≤ 57 := by
    simp only [Text.isPlainDigit, Bool.and_eq_true, decide_eq_true_eq] at plain
    exact plain.2
  have below : character.toNat < 0x80 := by omega
  simp [Text.isNameCharacter, Text.isNumeral, below, plain]

theorem Identifier.IsOrdinary.isPlain
    {identifier : Identifier}
    (ordinary : identifier.IsOrdinary) :
    identifier.IsPlain where
  name character member :=
    Text.isInner_of_isNameCharacter
      (List.all_eq_true.mp ordinary.1 character member)
  ty := ordinary.2

/-- A text ends where a character follows that cannot belong to it. -/
theorem append_inj_of_forall
    {p : α → Prop}
    {left right leftRest rightRest : List α}
    (leftHolds : ∀ element ∈ left, p element)
    (rightHolds : ∀ element ∈ right, p element)
    (leftStops : ∀ element ∈ leftRest.head?, ¬p element)
    (rightStops : ∀ element ∈ rightRest.head?, ¬p element)
    (same : left ++ leftRest = right ++ rightRest) :
    left = right ∧ leftRest = rightRest := by
  rcases List.append_eq_append_iff.mp same with
    ⟨more, rfl, rfl⟩ | ⟨more, rfl, rfl⟩
  · cases more with
    | nil =>
        simp
    | cons element others =>
        exact absurd (rightHolds element (by simp)) (leftStops element (by simp))
  · cases more with
    | nil =>
        simp
    | cons element others =>
        exact absurd (leftHolds element (by simp)) (rightStops element (by simp))

namespace Term.Form

/-- The word that the keys of terms of a form start with. -/
def word : Form → List Char
  | var => "var".toList
  | const => "const".toList
  | bind binder => binder.keyWord
  | app => "app".toList
  | tuple => "tuple".toList
  | neg => "not".toList
  | connect connective => connective.keyWord
  | equal => "eq".toList
  | relate relation => relation.keyWord

/-- The keys of the parts in the order in which they stand in a key. -/
def arrange : Form → List (List Char) → List (List Char)
  | connect .conditional, keys => keys
  | connect _, keys => sortKeys keys
  | equal, keys => sortKeys keys
  | _, keys => keys

/-- The keys of the parts in parentheses; variables and constants have neither. -/
def enclose : Form → List (List Char) → List Char
  | var, _ => []
  | const, _ => []
  | _, keys => '(' :: [','].intercalate keys ++ [')']

/-- Every form there is. -/
def all : List Form :=
  [var, const, app, tuple, neg, equal,
    bind .lambda, bind .universal, bind .existential, bind .description,
    connect .conjunction, connect .disjunction, connect .conditional,
    connect .biconditional, relate .subset, relate .properSubset]

theorem mem_all (form : Form) : form ∈ all := by
  cases form with
  | bind binder =>
      cases binder <;> decide
  | connect connective =>
      cases connective <;> decide
  | relate relation =>
      cases relation <;> decide
  | _ =>
      decide

/-- No two forms share a word. -/
theorem word_injective : Function.Injective word := by
  intro left right same
  have distinct : (all.map word).Nodup := by decide
  exact List.inj_on_of_nodup_map distinct (mem_all left) (mem_all right) same

/-- No word contains a blank, a bracket or a comma. -/
theorem isInner_of_mem_word
    {form : Form}
    {character : Char}
    (member : character ∈ form.word) :
    Text.IsInner character ∧ character ≠ ' ' := by
  have plain :
      ∀ form ∈ all,
        form.word.all fun character =>
          Text.IsInner character ∧ character ≠ ' ' := by
    decide
  have plainWord := List.all_eq_true.mp (plain form (mem_all form))
  exact of_decide_eq_true (plainWord character member)

theorem word_ne_nil (form : Form) : form.word ≠ [] := by
  have nonempty : ∀ form ∈ all, form.word ≠ [] := by decide
  exact nonempty form (mem_all form)

/-- Keys are arranged without loss. -/
theorem arrange_perm (form : Form) (keys : List (List Char)) :
    (form.arrange keys).Perm keys := by
  cases form with
  | connect connective =>
      cases connective with
      | conditional =>
          exact .refl _
      | _ =>
          exact Sorting.sort_perm _ _
  | equal =>
      exact Sorting.sort_perm _ _
  | _ =>
      exact .refl _

/-- Brackets match in keys if they match in the keys of the parts. -/
theorem closed_enclose
    (form : Form)
    {keys : List (List Char)}
    (closed : ∀ key ∈ keys, Text.Closed key) :
    Text.Closed (form.enclose keys) := by
  cases form with
  | var =>
      exact Text.closed_nil
  | const =>
      exact Text.closed_nil
  | _ =>
      exact .enclose (Text.openAfter_intercalate closed)

/-- What stands between parentheses can be read off. -/
theorem enclose_inj
    {form : Form}
    {keys others : List (List Char)}
    (hasParts : form ≠ var ∧ form ≠ const)
    (closed : ∀ key ∈ keys, Text.Closed key ∧ key ≠ [])
    (othersClosed : ∀ key ∈ others, Text.Closed key ∧ key ≠ [])
    (same : form.enclose keys = form.enclose others) :
    keys = others := by
  have between :
      '(' :: [','].intercalate keys ++ [')'] =
        '(' :: [','].intercalate others ++ [')'] := by
    cases form with
    | var =>
        exact absurd rfl hasParts.1
    | const =>
        exact absurd rfl hasParts.2
    | _ =>
        exact same
  exact Text.intercalate_comma_inj closed othersClosed
    (List.cons.inj (List.append_cancel_right between)).2

/-- The keys of parts start with a parenthesis, if there are any. -/
theorem head?_enclose
    (form : Form)
    (keys : List (List Char)) :
    (form.enclose keys).head? = none ∨ (form.enclose keys).head? = some '(' := by
  cases form <;> simp [enclose]

end Term.Form

namespace Term

/-- Every name and every type in a term is plain. -/
def IsPlain (term : Term) : Prop :=
  ∀ identifier ∈ term.identifiers, identifier.IsPlain

/-- The identifier in the root of a term, if there is one. -/
def identifier? : Term → Option Identifier
  | .var identifier => some identifier
  | .const identifier => some identifier
  | .bind _ bound _ => some bound
  | _ => none

/-- The terms whose keys the key of a term is made of. -/
def keyedParts : Term → List Term
  | .connect .conjunction left right =>
      left.operands .conjunction ++ right.operands .conjunction
  | .connect .disjunction left right =>
      left.operands .disjunction ++ right.operands .disjunction
  | term => term.children

/-- An identifier behind the first word of a key. -/
def label : Option Identifier → List Char
  | some identifier => ' ' :: identifierKey identifier
  | none => []

@[simp] theorem orderKeys_eq_map (terms : List Term) :
    orderKeys terms = terms.map orderKey := by
  induction terms with
  | nil =>
      rfl
  | cons term rest inductionHypothesis =>
      rw [orderKeys, inductionHypothesis]
      rfl

/-- The parts of the key of a conjunction or a disjunction are those of its sides. -/
theorem keyParts_connect
    {connective : Connective}
    (free : connective.JoinsFreely)
    (left right : Term) :
    (connect connective left right).keyParts =
      .chain connective
        (left.keyParts.operandsOf connective ++
          right.keyParts.operandsOf connective) := by
  rcases free with rfl | rfl <;> rfl

/-- A term contributes the keys of its operands to those of a larger chain. -/
theorem operandsOf_keyParts
    {connective : Connective}
    (free : connective.JoinsFreely)
    (term : Term) :
    term.keyParts.operandsOf connective =
      (term.operands connective).map orderKey := by
  induction term with
  | connect inner left right leftHypothesis rightHypothesis =>
      by_cases same : inner = connective
      · subst same
        rw [keyParts_connect free, KeyParts.operandsOf, if_pos rfl,
          leftHypothesis, rightHypothesis, operands, if_pos rfl, List.map_append]
      · rw [operands, if_neg same]
        cases inner <;>
          simp [keyParts, KeyParts.operandsOf, orderKey, KeyParts.key, same]
  | _ =>
      rfl

theorem keyed_eq (word : List Char) (keys : List (List Char)) :
    keyed word keys = word ++ ('(' :: [','].intercalate keys ++ [')']) :=
  List.append_assoc _ _ _

/-- The key of a term is made of its form, its identifier and the keys of its parts. -/
theorem orderKey_eq (term : Term) :
    term.orderKey =
      term.form.word ++
        (label term.identifier? ++
          term.form.enclose
            (term.form.arrange (term.keyedParts.map orderKey))) := by
  have chain
      {connective : Connective}
      (free : connective.JoinsFreely)
      (left right : Term) :
      (connect connective left right).orderKey =
        keyed connective.keyWord (sortKeys
          ((left.operands connective ++ right.operands connective).map
            orderKey)) := by
    rw [orderKey, keyParts_connect free, operandsOf_keyParts free,
      operandsOf_keyParts free, List.map_append]
    rfl
  cases term with
  | var identifier =>
      have word : "var ".toList = "var".toList ++ [' '] := by decide
      rw [orderKey, keyParts, KeyParts.key, word, List.append_assoc]
      exact congrArg ("var".toList ++ ·) (List.append_nil _).symm
  | const identifier =>
      have word : "const ".toList = "const".toList ++ [' '] := by decide
      rw [orderKey, keyParts, KeyParts.key, word, List.append_assoc]
      exact congrArg ("const".toList ++ ·) (List.append_nil _).symm
  | bind binder bound body =>
      rw [orderKey, keyParts, KeyParts.key, keyed_eq, List.append_assoc]
      rfl
  | tuple items =>
      rw [orderKey, keyParts, KeyParts.key, keyed_eq, orderKeys_eq_map]
      rfl
  | connect connective left right =>
      cases connective with
      | conjunction =>
          rw [chain (.inl rfl), keyed_eq]
          rfl
      | disjunction =>
          rw [chain (.inr rfl), keyed_eq]
          rfl
      | _ =>
          rw [orderKey, keyParts, KeyParts.key, keyed_eq]
          rfl
  | _ =>
      rw [orderKey, keyParts, KeyParts.key, keyed_eq]
      rfl

/-- An operand of a term lies within it. -/
theorem mem_operands_bounds
    {connective : Connective}
    {operand term : Term}
    (member : operand ∈ term.operands connective) :
    operand.size ≤ term.size ∧ operand.identifiers ⊆ term.identifiers := by
  induction term with
  | connect inner left right leftHypothesis rightHypothesis =>
      rw [operands] at member
      split at member
      · simp only [size, identifiers]
        rcases List.mem_append.mp member with inLeft | inRight
        · obtain ⟨smaller, included⟩ := leftHypothesis inLeft
          exact ⟨by omega, List.subset_append_of_subset_left _ included⟩
        · obtain ⟨smaller, included⟩ := rightHypothesis inRight
          exact ⟨by omega, List.subset_append_of_subset_right _ included⟩
      · rw [List.mem_singleton.mp member]
        exact ⟨le_rfl, List.Subset.refl _⟩
  | _ =>
      rw [List.mem_singleton.mp member]
      exact ⟨le_rfl, List.Subset.refl _⟩

/-- The parts that a key is made of are proper parts of the term. -/
theorem mem_keyedParts_bounds
    {part term : Term}
    (member : part ∈ term.keyedParts) :
    part.size < term.size ∧ part.identifiers ⊆ term.identifiers := by
  have ofChild (child : part ∈ term.children) :
      part.size < term.size ∧ part.identifiers ⊆ term.identifiers :=
    ⟨size_lt_of_mem_children child,
      fun _ mentioned => mem_identifiers_of_mem_children child mentioned⟩
  have ofOperand
      {connective : Connective}
      {left right : Term}
      (inEither : part ∈ left.operands connective ++ right.operands connective) :
      part.size < (connect connective left right).size ∧
        part.identifiers ⊆ (connect connective left right).identifiers := by
    simp only [size, identifiers]
    rcases List.mem_append.mp inEither with inLeft | inRight
    · obtain ⟨smaller, included⟩ := mem_operands_bounds inLeft
      exact ⟨by omega, List.subset_append_of_subset_left _ included⟩
    · obtain ⟨smaller, included⟩ := mem_operands_bounds inRight
      exact ⟨by omega, List.subset_append_of_subset_right _ included⟩
  cases term with
  | connect connective left right =>
      cases connective with
      | conjunction =>
          exact ofOperand member
      | disjunction =>
          exact ofOperand member
      | _ =>
          exact ofChild member
  | _ =>
      exact ofChild member

theorem IsPlain.of_mem_keyedParts
    {part term : Term}
    (plain : term.IsPlain)
    (member : part ∈ term.keyedParts) :
    part.IsPlain :=
  fun identifier mentioned =>
    plain identifier ((mem_keyedParts_bounds member).2 mentioned)

/-- The identifier in the root is one of those that the term mentions. -/
theorem mem_identifiers_of_identifier?_eq_some
    {term : Term}
    {identifier : Identifier}
    (inRoot : term.identifier? = some identifier) :
    identifier ∈ term.identifiers := by
  cases term <;> simp_all [identifier?, identifiers]

theorem orderKey_ne_nil (term : Term) : term.orderKey ≠ [] := by
  rw [orderKey_eq]
  exact List.append_ne_nil_of_left_ne_nil term.form.word_ne_nil _

/-- Brackets match in the label of a plain identifier. -/
theorem closed_label
    {identifier? : Option Identifier}
    (plain : ∀ identifier ∈ identifier?, identifier.IsPlain) :
    Text.Closed (label identifier?) := by
  cases identifier? with
  | none =>
      exact Text.closed_nil
  | some identifier =>
      obtain ⟨name, ty⟩ := plain identifier rfl
      have sign (character : Char) (inner : Text.IsInner character) :
          Text.Closed [character] :=
        Text.closed_of_forall_isInner (by simpa using inner)
      have nameClosed : Text.Closed identifier.name.toList :=
        Text.closed_of_forall_isInner fun character member =>
          (name character member).1
      exact (sign ' ' (by decide)).append
        (nameClosed.append ((sign ':' (by decide)).append (Ty.closed_chars ty)))

/-- The key of a plain term is a closed text. -/
theorem IsPlain.closed_orderKey
    {term : Term}
    (plain : term.IsPlain) :
    Text.Closed term.orderKey := by
  induction sizeOfTerm : term.size using Nat.strongRecOn generalizing term with
  | ind weight inductionHypothesis =>
      have wordClosed : Text.Closed term.form.word :=
        Text.closed_of_forall_isInner fun _ member =>
          (Form.isInner_of_mem_word member).1
      have labelClosed : Text.Closed (label term.identifier?) :=
        closed_label fun identifier inRoot =>
          plain identifier (mem_identifiers_of_identifier?_eq_some inRoot)
      have partsClosed :
          ∀ key ∈ term.form.arrange (term.keyedParts.map orderKey),
            Text.Closed key := by
        intro key member
        rw [(term.form.arrange_perm _).mem_iff, List.mem_map] at member
        obtain ⟨part, member, rfl⟩ := member
        exact inductionHypothesis part.size
          (sizeOfTerm ▸ (mem_keyedParts_bounds member).1)
          (plain.of_mem_keyedParts member) rfl
      rw [orderKey_eq]
      exact wordClosed.append
        (labelClosed.append (term.form.closed_enclose partsClosed))

/-- Behind the first word of a key stands a character that no word contains. -/
theorem not_isInner_of_mem_head?
    {identifier? : Option Identifier}
    {form : Form}
    {keys : List (List Char)}
    {character : Char}
    (first : character ∈ (label identifier? ++ form.enclose keys).head?) :
    ¬(Text.IsInner character ∧ character ≠ ' ') := by
  cases identifier? with
  | some identifier =>
      have blank : ' ' = character := by simpa [label] using first
      simp [← blank]
  | none =>
      rw [label, List.nil_append] at first
      rcases form.head?_enclose keys with nothing | bracket
      · simp [nothing] at first
      · have isBracket : '(' = character := by simpa [bracket] using first
        rw [← isBracket]
        decide

/-- An identifier can be told from the keys that follow it. -/
theorem label_append_enclose_inj
    {left right : Option Identifier}
    {form : Form}
    {keys others : List (List Char)}
    (leftPlain : ∀ identifier ∈ left, identifier.IsPlain)
    (rightPlain : ∀ identifier ∈ right, identifier.IsPlain)
    (same : label left ++ form.enclose keys = label right ++ form.enclose others) :
    left = right ∧ form.enclose keys = form.enclose others := by
  have noBlank (keys : List (List Char)) (text : List Char) :
      form.enclose keys ≠ ' ' :: text := by
    intro isBlank
    have head := form.head?_enclose keys
    simp [isBlank] at head
  have noFactor (keys : List (List Char)) : Ty.NoFactor (form.enclose keys) := by
    intro isSign
    have head := form.head?_enclose keys
    simp [isSign] at head
  cases left with
  | none =>
      cases right with
      | none =>
          exact ⟨rfl, same⟩
      | some identifier =>
          exact absurd same (noBlank keys _)
  | some identifier =>
      cases right with
      | none =>
          exact absurd same.symm (noBlank others _)
      | some other =>
          obtain ⟨namePlain, typePlain⟩ := leftPlain identifier rfl
          obtain ⟨otherNamePlain, otherTypePlain⟩ := rightPlain other rfl
          simp only [label, identifierKey, List.cons_append, List.append_assoc,
            List.cons.injEq, true_and] at same
          obtain ⟨names, same⟩ :=
            append_inj_of_forall
              (fun character member => (namePlain character member).2)
              (fun character member => (otherNamePlain character member).2)
              (by simp) (by simp) same
          obtain ⟨types, same⟩ :=
            Ty.chars_append_inj typePlain otherTypePlain (noFactor keys)
              (noFactor others) (List.cons.inj same).2
          refine ⟨?_, same⟩
          rw [Option.some.injEq, Identifier.mk.injEq]
          exact ⟨String.toList_inj.mp names, types⟩

/-- Variables and constants have no parts. -/
theorem keyedParts_eq_nil
    {term : Term}
    (noParts : ¬(term.form ≠ .var ∧ term.form ≠ .const)) :
    term.keyedParts = [] := by
  cases term <;> simp_all [form, keyedParts, children]

/-- The key of a plain term tells its form, its identifier and the keys of its parts. -/
theorem orderKey_inj
    {left right : Term}
    (leftPlain : left.IsPlain)
    (rightPlain : right.IsPlain)
    (same : left.orderKey = right.orderKey) :
    left.form = right.form ∧
      left.identifier? = right.identifier? ∧
        left.form.arrange (left.keyedParts.map orderKey) =
          right.form.arrange (right.keyedParts.map orderKey) := by
  have inRoot
      {term : Term}
      (plain : term.IsPlain) :
      ∀ identifier ∈ term.identifier?, identifier.IsPlain :=
    fun identifier inRoot =>
      plain identifier (mem_identifiers_of_identifier?_eq_some inRoot)
  have keysClosed
      {term : Term}
      (plain : term.IsPlain) :
      ∀ key ∈ term.form.arrange (term.keyedParts.map orderKey),
        Text.Closed key ∧ key ≠ [] := by
    intro key member
    rw [(term.form.arrange_perm _).mem_iff, List.mem_map] at member
    obtain ⟨part, member, rfl⟩ := member
    exact ⟨(plain.of_mem_keyedParts member).closed_orderKey, part.orderKey_ne_nil⟩
  rw [orderKey_eq left, orderKey_eq right] at same
  obtain ⟨words, same⟩ :=
    append_inj_of_forall (fun _ => Form.isInner_of_mem_word)
      (fun _ => Form.isInner_of_mem_word)
      (fun _ => not_isInner_of_mem_head?) (fun _ => not_isInner_of_mem_head?)
      same
  have forms := Form.word_injective words
  rw [← forms] at same
  obtain ⟨identifiers, same⟩ :=
    label_append_enclose_inj (inRoot leftPlain) (inRoot rightPlain) same
  refine ⟨forms, identifiers, ?_⟩
  by_cases hasParts : left.form ≠ .var ∧ left.form ≠ .const
  · rw [← forms]
    exact Form.enclose_inj hasParts (keysClosed leftPlain)
      (forms ▸ keysClosed rightPlain) same
  · rw [keyedParts_eq_nil hasParts, keyedParts_eq_nil (forms ▸ hasParts), forms]

end Term

end TypedLambda
