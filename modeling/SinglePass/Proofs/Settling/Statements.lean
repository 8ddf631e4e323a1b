import SinglePass.Proofs.Recognition.Statements
import SinglePass.Proofs.Settling.Declarations

/-!
# Statements and programs settle

Statements nest like factors: each kind of statement settles if the nested ones do, and
`statement_settles` closes the recursion by induction on the number of tokens.  `program_settles`
is the result for the start rule.
-/

namespace SinglePass.Simple

open Recognizer Settles

variable {ι : Type} {m : Nat} {heads : Kind → Prop}

/-! ## Statements without nested ones -/

/-- An assignment settles behind its name. -/
theorem assignment_settles :
    Settles m (· = Kind.ident) (fun _ (_ : ι) => assignment) (phrases Stmt.Derives) := by
  have hvalue : Settles m (fun _ => True)
      (fun _ (p : (((ι × Token Kind) × Option (Symbol Kind Ty)) × Unit) × Ty) =>
        mustBe Kind.assign >>= fun _ => expression >>= fun value =>
          (assignable p.2 value : GrammarRule Unit))
      (tokens (· = Kind.assign) * expressions .full) :=
    require (by decide)
      (thenSilent expression_settles fun _ _ _ => (reporting_assignable _ _).silent)
  have htarget : Settles m (fun _ => True)
      (fun _ (p : ((ι × Token Kind) × Option (Symbol Kind Ty)) × Unit) =>
        designator expression p.1.1.2 p.1.2) indexLists :=
    designator_settles expression_settles
      (fun p : ((ι × Token Kind) × Option (Symbol Kind Ty)) × Unit => p.1.1.2) fun p => p.1.2
  have hassignment : Settles m (· = Kind.ident) (fun _ (_ : ι) => assignment)
      (tokens (· = Kind.ident) * (indexLists * (tokens (· = Kind.assign) * expressions .full))) :=
    advance (afterSilent (fun _ p => (Reporting.resolve p.2).silent)
      (afterSilent (fun _ _ => (reporting_reportFaultIf _ _ _).silent) (htarget.bind hvalue)))
      ⟨.ident, rfl⟩ (by decide)
  refine hassignment.mono ?_
  intro ts hts
  obtain ⟨_, ⟨name, hname, rfl⟩, us, hus, rfl⟩ := Language.mem_mul.1 hts
  obtain ⟨vs, hvs, ws, hws, rfl⟩ := Language.mem_mul.1 hus
  obtain ⟨_, ⟨assign, hassign, rfl⟩, xs, ⟨value, hvalue⟩, rfl⟩ := Language.mem_mul.1 hws
  obtain ⟨indices, hindices⟩ := hvs name hname
  exact ⟨_, .assign hindices hassign hvalue⟩

/-- `Read` after its name. -/
def readOf : Option (Token Kind) → GrammarRule Unit
  | none => return
  | some name => do
    let symbol? ← resolve name
    checkTarget name symbol?
    let _ ← unindexed name symbol?

/-- What reads settles behind its keyword. -/
theorem readStatement_settles :
    Settles m (· = Kind.kwRead) (fun _ (_ : ι) => readStatement) (phrases Stmt.Derives) := by
  have hname : Settles m (fun _ => True)
      (fun _ (_ : ι × Token Kind) => mustBe Kind.ident >>= readOf)
      (tokens (· = Kind.ident) * 1) := by
    refine Settles.mustBe (by decide) (silent fun _ p => ?_) fun _ _ => .pure _
    exact .bind (Reporting.resolve p.2).silent fun _ =>
      .bind (reporting_reportFaultIf _ _ _).silent fun _ =>
      .bind (reporting_unindexed _ _).silent fun _ => .pure _
  have hread : Settles m (· = Kind.kwRead) (fun _ (_ : ι) => readStatement) _ :=
    advance hname ⟨.kwRead, rfl⟩ (by decide)
  refine hread.mono ?_
  intro ts hts
  rw [mul_one] at hts
  obtain ⟨_, ⟨readWord, hread, rfl⟩, _, ⟨name, hname, rfl⟩, rfl⟩ := Language.mem_mul.1 hts
  exact ⟨_, .read hread hname⟩

/-- What writes settles behind its keyword. -/
theorem writeStatement_settles :
    Settles m (· = Kind.kwWrite) (fun _ (_ : ι) => writeStatement) (phrases Stmt.Derives) := by
  have hwrite : Settles m (· = Kind.kwWrite) (fun _ (_ : ι) => writeStatement)
      (tokens (· = Kind.kwWrite) * expressions .full) :=
    advance (thenSilent expression_settles fun _ _ _ => .pure _) ⟨.kwWrite, rfl⟩ (by decide)
  refine hwrite.mono ?_
  intro ts hts
  obtain ⟨_, ⟨writeWord, hwrite, rfl⟩, us, ⟨value, hvalue⟩, rfl⟩ := Language.mem_mul.1 hts
  exact ⟨_, .write hwrite hvalue⟩

/-! ## Lists of statements -/

section

variable {nested : Nat → ι → GrammarRule Unit}
  (h : Settles m (fun _ => True) nested (phrases Stmt.Derives))

include h

/-- Statements in a row settle if each of them does. -/
theorem statementsOf_settles :
    Settles m heads (fun n i => statementsOf (nested n i)) (phrases (Repeated Stmt.Derives)) := by
  have hbody : Settles m (fun kind => decide (kind ∉ statementsEnds) = true)
      (fun n (p : ι × Unit) => nested n p.1) (phrases Stmt.Derives) :=
    (h.reindex Prod.fst).restrict fun _ _ => trivial
  refine whileSees (fun n i _ => nested n i) hbody ⟨[], .nil⟩ ?_ ?_
  · rintro ts ⟨s, hs⟩ us ⟨ss, hss⟩
    exact ⟨s :: ss, .cons hs hss⟩
  · rintro ⟨s, hs⟩
    obtain ⟨t, us, heq, -⟩ := hs.head_mem
    simp at heq

/-- An alternative, or none, settles if statements do. -/
theorem elsePart_settles : Settles m heads (fun n i => elsePart (nested n i))
    (tokens (· = Kind.kwElse) * phrases (Repeated Stmt.Derives) + 1) :=
  accept (by decide) (statementsOf_settles h) (silent fun _ _ => .pure _)

/-! ## Statements with nested ones -/

/-- A choice settles if its branches do, which nest less deep. -/
theorem ifStatement_settles : Settles (m + 1) (· = Kind.kwIf)
    (fun n i => ifStatement (nested (n - 1) i)) (phrases Stmt.Derives) := by
  have hend : Settles m (fun _ => True)
      (fun n (p : ((ι × Token Kind) × Operand) × Unit) => statementsOf (nested n p.1.1.1) >>=
        fun _ => elsePart (nested n p.1.1.1) >>= fun _ => mustBe Kind.kwEnd >>= fun _ =>
          (pure () : GrammarRule Unit))
      (phrases (Repeated Stmt.Derives) * ((tokens (· = Kind.kwElse) *
        phrases (Repeated Stmt.Derives) + 1) * (tokens (· = Kind.kwEnd) * 1))) := by
    refine (statementsOf_settles (h.reindex fun p : ((ι × Token Kind) × Operand) × Unit =>
      p.1.1.1)).bind ?_
    refine (elsePart_settles (h.reindex fun p : (((ι × Token Kind) × Operand) × Unit) × Unit =>
      p.1.1.1.1)).bind ?_
    exact require (by decide) (silent fun _ _ => .pure _)
  have hrest : Settles m (fun _ => True)
      (fun n (p : ι × Token Kind) => expression >>= fun test => condition test >>= fun _ =>
        mustBe Kind.kwThen >>= fun _ => statementsOf (nested n p.1) >>= fun _ =>
          elsePart (nested n p.1) >>= fun _ => mustBe Kind.kwEnd >>= fun _ =>
            (pure () : GrammarRule Unit)) (expressions .full * (tokens (· = Kind.kwThen) * _)) :=
    expression_settles.bind (afterSilent (fun _ _ => (reporting_condition _).silent)
      (require (by decide) hend))
  have hif : Settles (m + 1) (· = Kind.kwIf) (fun n i => ifStatement (nested (n - 1) i))
      (tokens (· = Kind.kwIf) * _) :=
    advance_pred (f := fun n i _ => expression >>= fun test => condition test >>= fun _ =>
      mustBe Kind.kwThen >>= fun _ => statementsOf (nested n i) >>= fun _ =>
        elsePart (nested n i) >>= fun _ => mustBe Kind.kwEnd >>= fun _ => pure ()) hrest
      ⟨.kwIf, rfl⟩ (by decide)
  -- The words of the parts together derive a choice, with an alternative or without.
  refine hif.mono ?_
  intro ts hts
  rw [mul_one] at hts
  obtain ⟨_, ⟨ifWord, hif, rfl⟩, us, hus, rfl⟩ := Language.mem_mul.1 hts
  obtain ⟨vs, ⟨test, htest⟩, ws, hws, rfl⟩ := Language.mem_mul.1 hus
  obtain ⟨_, ⟨thenWord, hthen, rfl⟩, xs, hxs, rfl⟩ := Language.mem_mul.1 hws
  obtain ⟨ys, ⟨body, hbody⟩, zs, hzs, rfl⟩ := Language.mem_mul.1 hxs
  obtain ⟨other, hother, _, ⟨endWord, hend, rfl⟩, rfl⟩ := Language.mem_mul.1 hzs
  rcases hother with hother | hother
  · obtain ⟨_, ⟨elseWord, helse, rfl⟩, more, ⟨elseBody, helseBody⟩, rfl⟩ :=
      Language.mem_mul.1 hother
    exact ⟨_, .branchElse hif htest hthen hbody helse helseBody hend⟩
  · rw [(Language.mem_one _).1 hother]
    exact ⟨_, .branch hif htest hthen hbody hend⟩

/-- A loop settles if its body does, which nests less deep. -/
theorem whileStatement_settles : Settles (m + 1) (· = Kind.kwWhile)
    (fun n i => whileStatement (nested (n - 1) i)) (phrases Stmt.Derives) := by
  have hbody : Settles m (fun _ => True)
      (fun n (p : ((ι × Token Kind) × Operand) × Unit) => statementsOf (nested n p.1.1.1) >>=
        fun _ => mustBe Kind.kwEnd >>= fun _ => (pure () : GrammarRule Unit))
      (phrases (Repeated Stmt.Derives) * (tokens (· = Kind.kwEnd) * 1)) := by
    refine (statementsOf_settles (h.reindex fun p : ((ι × Token Kind) × Operand) × Unit =>
      p.1.1.1)).bind ?_
    exact require (by decide) (silent fun _ _ => .pure _)
  have hrest : Settles m (fun _ => True)
      (fun n (p : ι × Token Kind) => expression >>= fun test => condition test >>= fun _ =>
        mustBe Kind.kwDo >>= fun _ => statementsOf (nested n p.1) >>= fun _ =>
          mustBe Kind.kwEnd >>= fun _ => (pure () : GrammarRule Unit))
      (expressions .full * (tokens (· = Kind.kwDo) * _)) :=
    expression_settles.bind (afterSilent (fun _ _ => (reporting_condition _).silent)
      (require (by decide) hbody))
  have hwhile : Settles (m + 1) (· = Kind.kwWhile) (fun n i => whileStatement (nested (n - 1) i))
      (tokens (· = Kind.kwWhile) * _) :=
    advance_pred (f := fun n i _ => expression >>= fun test => condition test >>= fun _ =>
      mustBe Kind.kwDo >>= fun _ => statementsOf (nested n i) >>= fun _ =>
        mustBe Kind.kwEnd >>= fun _ => pure ()) hrest ⟨.kwWhile, rfl⟩ (by decide)
  refine hwhile.mono ?_
  intro ts hts
  rw [mul_one] at hts
  obtain ⟨_, ⟨whileWord, hwhile, rfl⟩, us, hus, rfl⟩ := Language.mem_mul.1 hts
  obtain ⟨vs, ⟨test, htest⟩, ws, hws, rfl⟩ := Language.mem_mul.1 hus
  obtain ⟨_, ⟨doWord, hdo, rfl⟩, xs, hxs, rfl⟩ := Language.mem_mul.1 hws
  obtain ⟨ys, ⟨body, hbody⟩, _, ⟨endWord, hend, rfl⟩, rfl⟩ := Language.mem_mul.1 hxs
  exact ⟨_, .loop hwhile htest hdo hbody hend⟩

/-- A block settles if its statements do, which nest less deep. -/
theorem block_settles : Settles (m + 1) (· = Kind.kwWith)
    (fun n i => block (nested (n - 1) i)) (phrases Stmt.Derives) := by
  have hbody : Settles m (fun _ => True)
      (fun n (p : ((ι × Token Kind) × Unit) × Unit) => statementsOf (nested n p.1.1.1) >>=
        fun _ => mustBe Kind.kwEnd >>= fun _ => closeScope >>= fun _ =>
          (pure () : GrammarRule Unit))
      (phrases (Repeated Stmt.Derives) * (tokens (· = Kind.kwEnd) * 1)) := by
    refine (statementsOf_settles (h.reindex fun p : ((ι × Token Kind) × Unit) × Unit =>
      p.1.1.1)).bind ?_
    exact require (by decide) (silent fun _ _ => .bind .closeScope fun _ => .pure _)
  have hrest : Settles m (fun _ => True)
      (fun n (p : ι × Token Kind) => openScope >>= fun _ => declarations >>= fun _ =>
        mustBe Kind.kwIn >>= fun _ => statementsOf (nested n p.1) >>= fun _ =>
          mustBe Kind.kwEnd >>= fun _ => closeScope >>= fun _ => (pure () : GrammarRule Unit))
      (phrases (CommaList Decl.Derives) * (tokens (· = Kind.kwIn) * _)) :=
    afterSilent (fun _ _ => .openScope) (declarations_settle.bind (require (by decide) hbody))
  have hblock : Settles (m + 1) (· = Kind.kwWith) (fun n i => block (nested (n - 1) i))
      (tokens (· = Kind.kwWith) * _) :=
    advance_pred (f := fun n i _ => openScope >>= fun _ => declarations >>= fun _ =>
      mustBe Kind.kwIn >>= fun _ => statementsOf (nested n i) >>= fun _ =>
        mustBe Kind.kwEnd >>= fun _ => closeScope >>= fun _ => pure ()) hrest
      ⟨.kwWith, rfl⟩ (by decide)
  refine hblock.mono ?_
  intro ts hts
  rw [mul_one] at hts
  obtain ⟨_, ⟨withWord, hwith, rfl⟩, us, hus, rfl⟩ := Language.mem_mul.1 hts
  obtain ⟨vs, ⟨decls, hdecls⟩, ws, hws, rfl⟩ := Language.mem_mul.1 hus
  obtain ⟨_, ⟨inWord, hin, rfl⟩, xs, hxs, rfl⟩ := Language.mem_mul.1 hws
  obtain ⟨ys, ⟨body, hbody⟩, _, ⟨endWord, hend, rfl⟩, rfl⟩ := Language.mem_mul.1 hxs
  exact ⟨_, .block hwith hdecls hin hbody hend⟩

end

/-- **Statements settle**, by induction on the number of tokens. -/
theorem statement_settles (m : Nat) : Settles m (fun _ => True) (fun n (_ : Unit) => statement n)
    (phrases Stmt.Derives) := by
  have hsome : ∃ ts, ts ∈ phrases Stmt.Derives :=
    ⟨[⟨.kwRead, "", ⟨1, 1⟩⟩, ⟨.ident, "", ⟨1, 1⟩⟩], _, .read rfl rfl⟩
  refine Settles.recursive (fun n _ => composed_statement n) hsome ?_ m
  intro m ih
  refine select (· = Kind.ident) assignment_settles ?_ fun _ _ _ h => statement_of_ident h
  refine select (· = Kind.kwIf) (ifStatement_settles ih) ?_ fun _ _ _ h => statement_of_kwIf h
  refine select (· = Kind.kwWhile) (whileStatement_settles ih) ?_ fun _ _ _ h =>
    statement_of_kwWhile h
  refine select (· = Kind.kwRead) readStatement_settles ?_ fun _ _ _ h => statement_of_kwRead h
  refine select (· = Kind.kwWrite) writeStatement_settles ?_ fun _ _ _ h => statement_of_kwWrite h
  refine select (· = Kind.kwWith) (block_settles ih) ?_ fun _ _ _ h => statement_of_kwWith h
  have hother : Settles (m + 1) (fun kind => kind ∉ statementStarts)
      (fun _ (_ : Unit) => unexpected (.description "a statement") >>= fun _ =>
        advance >>= fun _ => (pure () : GrammarRule Unit)) (phrases Stmt.Derives) :=
    Settles.unexpected _ hsome fun _ _ => .bind .advance fun _ => .pure _
  refine (hother.congr (fun n _ => composed_statement (n - 1 + 1)) ?_).restrict ?_
  · intro n _ s _ hk _
    exact statement_of_notMem hk
  · intro kind hkind
    simp only [statementStarts, List.mem_cons, List.not_mem_nil, or_false]
    tauto

/-! ## Programs -/

/-- Statements in a row settle, however deep they nest. -/
theorem statements_settle :
    Settles m heads (fun _ (_ : ι) => statements) (phrases (Repeated Stmt.Derives)) := by
  have h : Settles m heads (fun n (_ : Unit) => statementsOf (statement n))
      (phrases (Repeated Stmt.Derives)) := statementsOf_settles (statement_settles m)
  exact h.withFuel.reindex fun _ => ()

/-- Declarations in front of a program settle, or there are none. -/
theorem optionalDeclarations_settle :
    Settles m heads (fun _ (_ : ι) => optionalDeclarations) (phrases OptionalDecls) := by
  have hdecls : Settles m (fun _ => True) (fun _ (_ : ι) => declarations) _ := declarations_settle
  have hnone : Settles m (fun kind => heads kind ∧ kind ≠ .kwWith)
      (fun _ (_ : ι) => (pure () : GrammarRule Unit)) 1 := silent fun _ _ => .pure _
  refine (accept (by decide) hdecls hnone).mono ?_
  intro ts hts
  rcases hts with hts | hts
  · obtain ⟨_, ⟨withWord, hwith, rfl⟩, us, ⟨decls, hdecls⟩, rfl⟩ := Language.mem_mul.1 hts
    exact ⟨decls, .some hwith hdecls⟩
  · rw [(Language.mem_one _).1 hts]
    exact ⟨[], .none⟩

/-- In front of any tokens, it is settled what the start rule does. -/
theorem program_settles :
    Settles m (fun _ => True) (fun _ (_ : Unit) => program) (phrases Program.Derives) := by
  have hbody : Settles m (fun _ => True)
      (fun _ (_ : (Unit × Unit) × Unit) => statements >>= fun _ => mustBe Kind.kwEnd >>= fun _ =>
        closeScope >>= fun _ => (pure () : GrammarRule Unit))
      (phrases (Repeated Stmt.Derives) * (tokens (· = Kind.kwEnd) * 1)) :=
    statements_settle.bind
      (require (by decide) (silent fun _ _ => .bind .closeScope fun _ => .pure _))
  have hrest : Settles m (fun _ => True)
      (fun _ (_ : Unit × Unit) => optionalDeclarations >>= fun _ => mustBe Kind.kwIn >>= fun _ =>
        statements >>= fun _ => mustBe Kind.kwEnd >>= fun _ => closeScope >>= fun _ =>
          (pure () : GrammarRule Unit))
      (phrases OptionalDecls * (tokens (· = Kind.kwIn) * _)) :=
    optionalDeclarations_settle.bind (require (by decide) hbody)
  have hprogram : Settles m (fun _ => True) (fun _ (_ : Unit) => program)
      (tokens (· = Kind.kwProgram) * (tokens (· = Kind.ident) * _)) :=
    require (by decide) (require (by decide) (afterSilent (fun _ _ => .openScope) hrest))
  refine hprogram.mono ?_
  intro ts hts
  rw [mul_one] at hts
  obtain ⟨_, ⟨programWord, hprogram, rfl⟩, us, hus, rfl⟩ := Language.mem_mul.1 hts
  obtain ⟨_, ⟨name, hname, rfl⟩, vs, hvs, rfl⟩ := Language.mem_mul.1 hus
  obtain ⟨ws, ⟨decls, hdecls⟩, xs, hxs, rfl⟩ := Language.mem_mul.1 hvs
  obtain ⟨_, ⟨inWord, hin, rfl⟩, ys, hys, rfl⟩ := Language.mem_mul.1 hxs
  obtain ⟨zs, ⟨body, hbody⟩, _, ⟨endWord, hend, rfl⟩, rfl⟩ := Language.mem_mul.1 hys
  exact ⟨_, .intro hprogram hname hdecls hin hbody hend⟩

end SinglePass.Simple
