import TypedLambda.Proofs.Ty.PrintedTypes
import TypedLambda.Proofs.Ty.ReaderSteps

namespace TypedLambda.Ty

/-!
# Printing and reading types

A type can be written down if its atoms and variables are small letters and
its products have two factors or more. Those are exactly the types that are
read back from their printed form, in either set of symbols, and nothing but
such types is ever read.
-/

/-- The type can be written down. -/
inductive Readable : Ty → Prop where
  | atom
      {letter : Char}
      (small : Text.isSmallLetter letter = true) :
      Readable (.atom letter)
  | var
      {letter : Char}
      (small : Text.isSmallLetter letter = true) :
      Readable (.var letter)
  | fn
      {domain range : Ty}
      (readableDomain : Readable domain)
      (readableRange : Readable range) :
      Readable (.fn domain range)
  | prod
      {factors : List Ty}
      (several : 2 ≤ factors.length)
      (each : ∀ factor ∈ factors, Readable factor) :
      Readable (.prod factors)

namespace Reader

variable {symbols : SymbolSet}

/--
The printed form leads to the type: as a factor it is added to the factors
before it, and as a product it leaves its factors.
-/
structure ReadsBack (symbols : SymbolSet) (ty : Ty) : Prop where
  factor :
    ∀ (factors : List Ty) (outer : List Level),
      Reads ⟨.factor, factors, outer⟩ (enclose ty (ty.chars symbols))
        ⟨.continuation, factors ++ [ty], outer⟩
  product :
    ∀ outer : List Level,
      Reads ⟨.factor, [], outer⟩ (ty.chars symbols)
        ⟨.continuation, ty.printedFactors, outer⟩

/-- A type that is no product is printed alike as a factor and as a product. -/
theorem ReadsBack.of_factor
    {ty : Ty}
    (noProduct : ∀ factors, ty ≠ .prod factors)
    (factor :
      ∀ (factors : List Ty) (outer : List Level),
        Reads ⟨.factor, factors, outer⟩ (ty.chars symbols)
          ⟨.continuation, factors ++ [ty], outer⟩) :
    ReadsBack symbols ty := by
  cases ty with
  | prod factors =>
      exact (noProduct factors rfl).elim
  | _ =>
      exact ⟨factor, factor []⟩

/-- The factors that a type is printed as make up the type. -/
theorem product_printedFactors
    {ty : Ty}
    (readable : ty.Readable) :
    product ty.printedFactors = ty := by
  cases readable with
  | @prod factors several _ =>
      match factors, several with
      | _ :: _ :: _, _ =>
          rfl
  | _ =>
      rfl

/-- The sign between two factors makes the product go on. -/
theorem reads_times
    (symbols : SymbolSet)
    (factors : List Ty)
    (outer : List Level) :
    Reads ⟨.continuation, factors, outer⟩ (times symbols) ⟨.factor, factors, outer⟩ := by
  cases symbols with
  | logical =>
      exact .single (.times (.inl rfl))
  | plain =>
      exact .single (.times (.inr rfl))

/-- Further factors are added to those before them. -/
theorem reads_furtherFactors
    {rest : List Ty}
    (readsBack : ∀ factor ∈ rest, ReadsBack symbols factor)
    (before : List Ty)
    (outer : List Level) :
    Reads ⟨.continuation, before, outer⟩ (furtherFactors symbols rest)
      ⟨.continuation, before ++ rest, outer⟩ := by
  induction rest generalizing before with
  | nil =>
      simpa [furtherFactors] using Reads.nil _
  | cons factor rest inductionHypothesis =>
      obtain ⟨first, others⟩ := List.forall_mem_cons.mp readsBack
      have withFirst := (reads_times symbols before outer).append (first.factor before outer)
      have withOthers := inductionHypothesis others (before ++ [factor])
      simpa [furtherFactors] using withFirst.append withOthers

/-- Every type that can be written down is led to by its printed form. -/
theorem readsBack
    {ty : Ty}
    (readable : ty.Readable) :
    ReadsBack symbols ty := by
  induction readable with
  | atom small =>
      refine .of_factor (by simp) fun factors outer => ?_
      exact .single (.factor (.atom small))
  | var small =>
      refine .of_factor (by simp) fun factors outer => ?_
      exact .cons (.factor .quote) (.single (.letter small))
  | @fn domain range readableDomain readableRange domainHypothesis rangeHypothesis =>
      refine .of_factor (by simp) fun factors outer => ?_
      have toDomain := domainHypothesis.product (⟨factors, .domain⟩ :: outer)
      have toRange := rangeHypothesis.product (⟨factors, .range domain⟩ :: outer)
      have comma :
          Step ⟨.continuation, domain.printedFactors, ⟨factors, .domain⟩ :: outer⟩ ','
            ⟨.factor, [], ⟨factors, .range domain⟩ :: outer⟩ := by
        have step :
            Step ⟨.continuation, domain.printedFactors, ⟨factors, .domain⟩ :: outer⟩ ',' _ :=
          .comma
        simpa only [product_printedFactors readableDomain] using step
      have close :
          Step ⟨.continuation, range.printedFactors, ⟨factors, .range domain⟩ :: outer⟩ '>'
            ⟨.continuation, factors ++ [.fn domain range], outer⟩ := by
        have step :
            Step ⟨.continuation, range.printedFactors, ⟨factors, .range domain⟩ :: outer⟩ '>' _ :=
          .closeFunction
        simpa only [product_printedFactors readableRange] using step
      simpa [chars] using
        Reads.cons (.factor .function)
          (toDomain.append (.cons comma (toRange.append (.single close))))
  | @prod factors several each inductionHypothesis =>
      have product (outer : List Level) :
          Reads ⟨.factor, [], outer⟩ ((Ty.prod factors).chars symbols)
            ⟨.continuation, factors, outer⟩ := by
        cases factors with
        | nil =>
            simp at several
        | cons factor rest =>
            obtain ⟨first, others⟩ := List.forall_mem_cons.mp inductionHypothesis
            simpa [chars] using
              (first.factor [] outer).append (reads_furtherFactors others [factor] outer)
      refine ⟨fun before outer => ?_, product⟩
      have whole : Reader.product factors = .prod factors :=
        product_printedFactors (.prod several each)
      have close :
          Step ⟨.continuation, factors, ⟨before, .group⟩ :: outer⟩ ')'
            ⟨.continuation, before ++ [.prod factors], outer⟩ :=
        whole ▸ .closeGroup
      exact .cons (.factor .group) ((product (⟨before, .group⟩ :: outer)).append (.single close))

/-- What opened a product can be written down as far as it is known. -/
def Opening.Readable : Opening → Prop
  | .domain => True
  | .range ty => ty.Readable
  | .group => True

/-- Everything in the state can be written down, and a product that may end has factors. -/
structure State.Readable (state : State) : Prop where
  factors : ∀ factor ∈ state.factors, factor.Readable
  outer :
    ∀ level ∈ state.outer,
      (∀ factor ∈ level.factors, factor.Readable) ∧ level.opening.Readable
  nonempty : state.mode = .continuation → state.factors ≠ []

/-- Factors that can be written down make up a product that can. -/
theorem readable_product
    {factors : List Ty}
    (nonempty : factors ≠ [])
    (each : ∀ factor ∈ factors, factor.Readable) :
    (product factors).Readable := by
  match factors with
  | [] =>
      exact (nonempty rfl).elim
  | [factor] =>
      exact each factor (by simp)
  | _ :: _ :: _ =>
      exact .prod (by simp) each

/-- A factor that can be written down may be added. -/
theorem State.Readable.add
    {mode : Mode}
    {factors : List Ty}
    {outer : List Level}
    {factor : Ty}
    (readable : State.Readable ⟨mode, factors, outer⟩)
    (readableFactor : factor.Readable) :
    State.Readable ⟨.continuation, factors ++ [factor], outer⟩ := by
  refine ⟨?_, readable.outer, by simp⟩
  exact List.forall_mem_append.mpr ⟨readable.factors, by simpa using readableFactor⟩

/-- Beginning a factor keeps everything readable. -/
theorem State.Readable.begins
    {state next : State}
    {character : Char}
    (readable : state.Readable)
    (begins : Begins state character next) :
    next.Readable := by
  cases begins with
  | function =>
      exact ⟨by simp, List.forall_mem_cons.mpr ⟨⟨readable.factors, trivial⟩, readable.outer⟩,
        by simp⟩
  | group =>
      exact ⟨by simp, List.forall_mem_cons.mpr ⟨⟨readable.factors, trivial⟩, readable.outer⟩,
        by simp⟩
  | quote =>
      exact ⟨readable.factors, readable.outer, by simp⟩
  | atom small =>
      exact readable.add (.atom small)

/-- A step keeps everything in the state readable. -/
theorem State.Readable.step
    {state next : State}
    {character : Char}
    (readable : state.Readable)
    (step : Step state character next) :
    next.Readable := by
  cases step with
  | blank =>
      exact readable
  | factor begins =>
      exact readable.begins begins
  | letter small =>
      exact readable.add (.var small)
  | times =>
      exact ⟨readable.factors, readable.outer, by simp⟩
  | comma =>
      have domain := readable_product (readable.nonempty rfl) readable.factors
      obtain ⟨⟨before, _⟩, outer⟩ := List.forall_mem_cons.mp readable.outer
      exact ⟨by simp, List.forall_mem_cons.mpr ⟨⟨before, domain⟩, outer⟩, by simp⟩
  | rangeAtOnce begins =>
      have domain := readable_product (readable.nonempty rfl) readable.factors
      obtain ⟨⟨before, _⟩, outer⟩ := List.forall_mem_cons.mp readable.outer
      refine State.Readable.begins ?_ begins
      exact ⟨by simp, List.forall_mem_cons.mpr ⟨⟨before, domain⟩, outer⟩, by simp⟩
  | closeFunction =>
      have range := readable_product (readable.nonempty rfl) readable.factors
      obtain ⟨⟨before, domain⟩, outer⟩ := List.forall_mem_cons.mp readable.outer
      have around : State.Readable ⟨.factor, _, _⟩ := ⟨before, outer, by simp⟩
      exact around.add (.fn domain range)
  | closeGroup =>
      have group := readable_product (readable.nonempty rfl) readable.factors
      obtain ⟨⟨before, _⟩, outer⟩ := List.forall_mem_cons.mp readable.outer
      have around : State.Readable ⟨.factor, _, _⟩ := ⟨before, outer, by simp⟩
      exact around.add group

/-- Everything stays readable however many characters are read. -/
theorem State.Readable.reads
    {state last : State}
    {text : List Char}
    (readable : state.Readable)
    (reads : Reads state text last) :
    last.Readable := by
  induction reads with
  | nil =>
      exact readable
  | cons step _ inductionHypothesis =>
      exact inductionHypothesis (readable.step step)

theorem readable_start : State.Readable start :=
  ⟨by simp [start], by simp [start], by simp [start]⟩

end Reader

/-- Every type that is read can be written down. -/
theorem readable_of_read
    {text : String}
    {ty : Ty}
    (result : read text = .ok ty) :
    ty.Readable := by
  obtain ⟨factors, reads, rfl⟩ := read_eq_ok_iff.mp result
  have readable := Reader.readable_start.reads reads
  exact Reader.readable_product (readable.nonempty rfl) readable.factors

/-- A type that can be written down is read back from its text. -/
theorem Readable.read_text
    {ty : Ty}
    (readable : ty.Readable)
    (symbols : SymbolSet) :
    read (ty.text symbols) = .ok ty := by
  refine read_eq_ok_iff.mpr ⟨ty.printedFactors, ?_, Reader.product_printedFactors readable⟩
  simpa [text, Reader.start] using (Reader.readsBack readable).product []

/--
The types that are read back from their printed form, in either set of symbols,
are exactly those whose atoms and variables are small letters and whose
products have two factors or more; and no other type is ever read.
-/
theorem read_text_eq_ok_iff :
    (∀ (ty : Ty) (symbols : SymbolSet),
        read (ty.text symbols) = .ok ty ↔ ty.Readable) ∧
      ∀ (text : String) (ty : Ty), read text = .ok ty → ty.Readable :=
  ⟨fun _ symbols => ⟨readable_of_read, fun readable => readable.read_text symbols⟩,
    fun _ _ => readable_of_read⟩

/-- The type <(e×'a)×<e×t,t>,t> of nested products. -/
def nestedProducts : Ty :=
  .fn (.prod [.prod [.entity, .var 'a'], .fn (.prod [.entity, .truth]) .truth]) .truth

theorem read_text_eq_ok_iff_nestedProducts :
    read (nestedProducts.text .plain) = .ok nestedProducts ∧
      nestedProducts.Readable ∧
      nestedProducts.text .plain = "<(e*'a)*<e*t,t>,t>" := by
  obtain ⟨_, onlyReadable⟩ := read_text_eq_ok_iff
  have result : read (nestedProducts.text .plain) = .ok nestedProducts := by
    rfl
  exact ⟨result, onlyReadable _ _ result, rfl⟩

end TypedLambda.Ty
