import TypedLambda.Proofs.Term.ReadTerms
import TypedLambda.Proofs.Term.ReadingBack

namespace TypedLambda.Term

/-!
# Printing and reading

A term that can be written down is read back from its text, with logical
symbols under all options and with plain ones where letters may stand for
binders. Conversely every term that is read can be written down, so reading
and printing agree on which terms there are.
-/

open Reader

variable {options : ReadingOptions} {term : Term}

/-- The tokens of a term that is read back make up the whole term. -/
theorem ReadsBack.run_start
    {symbols : SymbolSet}
    (readsBack : ReadsBack options symbols term)
    {lexemes : List Lexeme}
    (spelled : lexemes.map Lexeme.token = term.tokensUnder options symbols)
    (finish : Nat) :
    run options finish start lexemes = .ok term := by
  obtain ⟨last, pending, reads, isTerm, _⟩ :=
    readsBack.operand [] [] [] nofun nofun
  have ended := reads lexemes [] finish spelled rfl
  rw [List.append_nil, List.append_nil] at ended
  rw [start, ended, ← isTerm]
  rfl

/-- A readable term is read back from its text. -/
theorem Readable.read_text
    {symbols : SymbolSet}
    (readable : term.Readable options)
    (allowed : symbols = .plain → options.letterBinders = true) :
    read options (term.text symbols) = .ok term := by
  have prints :
      Prints options.style (term.chars symbols) (term.tokensUnder options symbols) :=
    prints_chars fun _ occurs => readable.isName occurs
  obtain ⟨scan, scanned, spelled⟩ := prints [] [] nofun .nil 0
  rw [List.append_nil] at scanned spelled
  have result :=
    (readable.readsBack allowed).run_start spelled scan.finish
  have notEmpty : scan.lexemes.isEmpty = false := by
    cases lexemes : scan.lexemes with
    | nil =>
        rw [lexemes] at result
        cases result
    | cons lexeme rest =>
        rfl
  have scannedText : Token.scan options.style (term.text symbols) = .ok scan := by
    rw [Token.scan, text, String.toList_ofList]
    exact scanned
  simp only [read, scannedText, Outcome.ok_bind, notEmpty, Bool.false_eq_true,
    ↓reduceIte]
  exact result

/--
Under all options a readable term is read back from its logical text, and from
its plain text if letters may stand for binders; and every term that is read is
readable.
-/
theorem read_text_eq_ok (options : ReadingOptions) :
    (∀ term : Term, term.Readable options →
        read options (term.text .logical) = .ok term ∧
          (options.letterBinders = true →
            read options (term.text .plain) = .ok term)) ∧
      ∀ (text : String) (term : Term),
        read options text = .ok term → term.Readable options :=
  ⟨fun _ readable =>
      ⟨readable.read_text nofun, fun letters => readable.read_text fun _ => letters⟩,
    fun _ _ result => readable_of_read result⟩

/-- The term λx.P(x) ∧ ¬(∃y.R(x,y) ↔ p). -/
def quantifiedConjunction : Term :=
  .bind .lambda ⟨"x", .entity⟩
    (.connect .conjunction
      (.app (.const ⟨"P", .predicate .entity⟩) (.var ⟨"x", .entity⟩))
      (.neg (.connect .biconditional
        (.bind .existential ⟨"y", .entity⟩
          (.app (.const ⟨"R", .predicate (.prod [.entity, .entity])⟩)
            (.tuple [.var ⟨"x", .entity⟩, .var ⟨"y", .entity⟩])))
        (.var ⟨"p", .truth⟩))))

theorem read_text_eq_ok_quantifiedConjunction :
    quantifiedConjunction.Readable .standard ∧
      read .standard (quantifiedConjunction.text .logical) =
        .ok quantifiedConjunction ∧
      read .standard (quantifiedConjunction.text .plain) =
        .ok quantifiedConjunction := by
  have readable : quantifiedConjunction.Readable .standard := by
    simp only [quantifiedConjunction, Readable, AllReadable,
      ReadingOptions.Admits]
    decide +kernel
  obtain ⟨readBack, _⟩ := read_text_eq_ok .standard
  obtain ⟨logical, plain⟩ := readBack quantifiedConjunction readable
  exact ⟨readable, logical, plain rfl⟩

end TypedLambda.Term
