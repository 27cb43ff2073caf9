import LittleScript.Proofs.FlawPlaces
import LittleScript.Proofs.NestedErrors
import LittleScript.Proofs.OutlineReading

namespace LittleScript.Eval

/-!
# Reading with errors in their places

An error that is pending once the outermost text has been read was pending before, is a flaw into
which the text runs, or has been left by nested code on which the reading waits.
-/

open Source (Cursor Flaw GapRunsInto NeverCloses RunsInto Spans WordsRunInto)

variable {σ α β : Type}

/-! ## Calls on which an action waits -/

/-- An action that waits for a nested call crashes if that call does. -/
def Awaits (action : Run σ → Eval σ α) (run : Run σ) (machine : Machine σ) (call : Call σ) : Prop :=
  ∃ after, action (answering run call (.error .crash call.machine)) machine = .error .crash after

/-- An action that yields a value makes the calls on which it waits. -/
theorem Awaits.makes
    {action : Run σ → Eval σ α}
    {run : Run σ}
    {machine after : Machine σ}
    {call : Call σ}
    {value : α}
    (awaits : Awaits action run machine call)
    (ran : action run machine = .ok value after) :
    Makes action run machine call := by
  obtain ⟨stopped, crashed⟩ := awaits
  refine ⟨.error .crash call.machine, ?_⟩
  rw [crashed, ran]
  exact fun same => nomatch same

/-- What is composed runs as before when a nested call crashes, or it waits for that call. -/
theorem Composed.same_or_awaits
    {action : Run σ → Eval σ α}
    (composed : Composed (Scope.whole False).toRealm action)
    (fuel : Nat)
    {machine : Machine σ}
    (free : machine.interpreter.HostFree)
    {call : Call σ}
    (callFree : call.machine.interpreter.HostFree)
    (busy : call.machine.interpreter.active ≠ []) :
    action (answering (evaluate fuel) call (.error .crash call.machine)) machine =
        action (evaluate fuel) machine ∨
      Awaits action (evaluate fuel) machine call := by
  have agree : AgreeUpTo (· = .crash)
      (answering (evaluate fuel) call (.error .crash call.machine)) (evaluate fuel) := by
    intro code ownResult there _
    by_cases isCall : (⟨code, ownResult, there⟩ : Call σ) = call
    · subst isCall
      exact .inr ⟨busy, .crash, there, rfl, if_pos rfl⟩
    · exact .inl (answering_of_ne isCall)
  have endures : ∀ code ownResult, Endures Interpreter.HostFree (fun _ => True)
      (answering (evaluate fuel) call (.error .crash call.machine) code ownResult) := by
    intro code ownResult there thereFree
    refine ⟨?_, fun _ _ _ => True.intro⟩
    by_cases isCall : (⟨code, ownResult, there⟩ : Call σ) = call
    · subst isCall
      have crashes : answering (evaluate fuel) ⟨code, ownResult, there⟩ (.error .crash there) code
          ownResult there = .error .crash there := if_pos rfl
      rw [final_of_error crashes]
      exact thereFree
    · rw [final, answering_of_ne isCall]
      exact (LastingScript.trivial.evaluate fuel code ownResult there thereFree).1
  rcases composed.endAlike (ground_hostFree False) (agree.agreeOn False) endures machine free with
    same | ⟨_, after, rfl, crashed⟩
  · exact .inl same
  · exact .inr ⟨after, crashed⟩

/-! ## Where a machine stands -/

/-- Where a machine is while the outermost evaluation of a text is at one of its commands. -/
structure Standing (code : Text) (start : Nat) (machine : Machine σ) : Prop where
  free : machine.interpreter.HostFree
  active : machine.interpreter.active = [start]
  source : machine.interpreter.source = code
  context : machine.interpreter.context = .background

namespace Standing

variable {code : Text} {start : Nat} {machine : Machine σ}

theorem busy
    (standing : Standing code start machine) :
    machine.interpreter.active ≠ [] := by
  rw [standing.active]
  exact List.cons_ne_nil _ _

/-- Nested code comes back to where the machine stands. -/
theorem evaluate
    (standing : Standing code start machine)
    (fuel : Nat)
    (inner : Text)
    (ownResult : Bool) :
    Standing code start (final (Eval.evaluate fuel inner ownResult) machine) := by
  obtain ⟨free, control⟩ := control_lasting.evaluate fuel inner ownResult machine standing.free
  have text := (evaluate_keepsText fuel inner ownResult machine standing.free).2 standing.busy
  exact ⟨free, (congrArg Control.active control).trans standing.active,
    text.1.trans standing.source, (congrArg Control.context control).trans standing.context⟩

/-- An error that is raised, or not, does not matter. -/
theorem raiseAt
    (standing : Standing code start machine)
    (offset : Int)
    (reason : Reason) :
    Standing code start (final (Eval.raiseAt offset reason) machine) := by
  obtain ⟨error, world, raised⟩ := raiseAt_apply offset reason machine
  rw [final_of_ok raised]
  exact ⟨standing.free, standing.active, standing.source, standing.context⟩

end Standing

/-! ## Actions that account for errors -/

/--
Where an error comes from that an action raises while it reads the outermost text; `found` tells
the flaws into which it can run.
-/
inductive Raised (fuel : Nat) (code : Text) (start : Nat) (found : Nat → Flaw → Prop)
    (action : Run σ → Eval σ α) (machine : Machine σ) (error : ScriptError) : Prop where
  | flaw {offset : Nat} {flaw : Flaw} :
      found offset flaw →
      error = .locate (.malformed flaw) code offset →
      Raised fuel code start found action machine error
  | nested {call : Call σ} :
      Standing code start call.machine →
      call.machine.interpreter.error = none →
      (call.after (evaluate fuel)).interpreter.error = some error →
      Awaits action (evaluate fuel) machine call →
      Raised fuel code start found action machine error

/-- What is pending behind an action: what was before, or else an error that it has raised. -/
inductive Pends (fuel : Nat) (code : Text) (start : Nat) (found : Nat → Flaw → Prop)
    (action : Run σ → Eval σ α) (machine after : Machine σ) : Prop where
  | kept :
      after.interpreter.error = machine.interpreter.error →
      Pends fuel code start found action machine after
  | raised {error : ScriptError} :
      machine.interpreter.error = none →
      after.interpreter.error = some error →
      Raised fuel code start found action machine error →
      Pends fuel code start found action machine after

/-- Without an error in the end there was none before. -/
theorem Pends.unfailed
    {fuel : Nat}
    {code : Text}
    {start : Nat}
    {found : Nat → Flaw → Prop}
    {action : Run σ → Eval σ α}
    {machine after : Machine σ}
    (pends : Pends fuel code start found action machine after)
    (noError : after.interpreter.error = none) :
    machine.interpreter.error = none := by
  cases pends with
  | kept same => exact same.symm.trans noError
  | raised none _ _ => exact none

/-- An action that stays where it stands and accounts for what is pending behind it. -/
def Accounts (fuel : Nat) (code : Text) (start : Nat) (found : Nat → Flaw → Prop)
    (fits : Machine σ → α → Prop) (action : Run σ → Eval σ α) (machine : Machine σ) : Prop :=
  ∀ value after, action (evaluate fuel) machine = .ok value after →
    Standing code start after ∧ Pends fuel code start found action machine after ∧ fits after value

namespace Accounts

variable {fuel : Nat} {code : Text} {start : Nat} {found : Nat → Flaw → Prop} {machine : Machine σ}

theorem pure
    {fits : Machine σ → α → Prop}
    {value : α}
    (standing : Standing code start machine)
    (fit : fits machine value) :
    Accounts fuel code start found fits (fun _ => Pure.pure value) machine := by
  intro _ _ ran
  cases ran
  exact ⟨standing, .kept rfl, fit⟩

/-- What fits less tightly; an error is not pending in the end if it was at first. -/
theorem weaken
    {fits looser : Machine σ → α → Prop}
    {action : Run σ → Eval σ α}
    (accounts : Accounts fuel code start found fits action machine)
    (loosens : ∀ value after, fits after value →
      (after.interpreter.error = none → machine.interpreter.error = none) → looser after value) :
    Accounts fuel code start found looser action machine := by
  intro value after ran
  obtain ⟨standing, pends, fit⟩ := accounts value after ran
  exact ⟨standing, pends, loosens value after fit pends.unfailed⟩

/-- An action that can run into more flaws. -/
theorem widen
    {wider : Nat → Flaw → Prop}
    {fits : Machine σ → α → Prop}
    {action : Run σ → Eval σ α}
    (accounts : Accounts fuel code start found fits action machine)
    (widens : machine.interpreter.error = none → ∀ offset flaw, found offset flaw →
      wider offset flaw) :
    Accounts fuel code start wider fits action machine := by
  intro value after ran
  obtain ⟨standing, pends, fit⟩ := accounts value after ran
  refine ⟨standing, ?_, fit⟩
  cases pends with
  | kept same => exact .kept same
  | raised noError failed raised =>
      refine .raised noError failed ?_
      cases raised with
      | flaw runsInto isError => exact .flaw (widens noError _ _ runsInto) isError
      | nested there unfailed left awaits => exact .nested there unfailed left awaits

/-- An action that runs like another one accounts like it. -/
theorem of_apply
    {fits : Machine σ → α → Prop}
    {action other : Run σ → Eval σ α}
    (accounts : Accounts fuel code start found fits other machine)
    (same : ∀ run, action run machine = other run machine) :
    Accounts fuel code start found fits action machine := by
  intro value after ran
  rw [same] at ran
  obtain ⟨standing, pends, fit⟩ := accounts value after ran
  refine ⟨standing, ?_, fit⟩
  cases pends with
  | kept unchanged => exact .kept unchanged
  | raised noError failed raised =>
      refine .raised noError failed ?_
      cases raised with
      | flaw runsInto isError => exact .flaw runsInto isError
      | nested there unfailed left awaits =>
          obtain ⟨stopped, crashed⟩ := awaits
          exact .nested there unfailed left ⟨stopped, (same _).trans crashed⟩

/-- An error is raised by the first action and kept by the next one, or raised by the next one. -/
theorem bind
    {fits : Machine σ → α → Prop}
    {fitsNext : Machine σ → β → Prop}
    {first : Run σ → Eval σ α}
    {next : Run σ → α → Eval σ β}
    (standing : Standing code start machine)
    (composed : Composed (Scope.whole False).toRealm first)
    (accountsFirst : Accounts fuel code start found fits first machine)
    (accountsNext : ∀ value between, first (evaluate fuel) machine = .ok value between →
      Standing code start between → fits between value →
      Accounts fuel code start found fitsNext (fun run => next run value) between) :
    Accounts fuel code start found fitsNext (fun run => first run >>= next run) machine := by
  intro result after ran
  obtain ⟨value, between, ranFirst, ranNext⟩ := bind_eq_ok ran
  obtain ⟨standingBetween, pendsFirst, fit⟩ := accountsFirst value between ranFirst
  obtain ⟨standingAfter, pendsNext, fitNext⟩ :=
    accountsNext value between ranFirst standingBetween fit result after ranNext
  refine ⟨standingAfter, ?_, fitNext⟩
  cases pendsFirst with
  | kept same =>
      cases pendsNext with
      | kept sameNext => exact .kept (sameNext.trans same)
      | raised noError failed raised =>
          refine .raised (same.symm.trans noError) failed ?_
          cases raised with
          | flaw runsInto isError => exact .flaw runsInto isError
          | @nested call there unfailed left awaits =>
              refine .nested there unfailed left ?_
              obtain ⟨stopped, crashed⟩ := awaits
              rcases composed.same_or_awaits fuel standing.free there.free there.busy with
                same | ⟨after, stops⟩
              · exact ⟨stopped, (bind_of_ok (same.trans ranFirst)).trans crashed⟩
              · exact ⟨after, bind_of_error stops⟩
  | raised noError failed raised =>
      cases pendsNext with
      | kept sameNext =>
          refine .raised noError (sameNext.trans failed) ?_
          cases raised with
          | flaw runsInto isError => exact .flaw runsInto isError
          | nested there unfailed left awaits =>
              obtain ⟨after, stops⟩ := awaits
              exact .nested there unfailed left ⟨after, bind_of_error stops⟩
      | raised unfailed _ _ =>
          rw [failed] at unfailed
          cases unfailed

/-- What depends on whether an error is pending. -/
theorem hasError
    {fits : Machine σ → α → Prop}
    {next : Run σ → Bool → Eval σ α}
    (accounts : Accounts fuel code start found fits
      (fun run => next run machine.interpreter.error.isSome) machine) :
    Accounts fuel code start found fits (fun run => Eval.hasError >>= next run) machine :=
  accounts.of_apply fun _ => rfl

/-- Nested code accounts for its errors by itself. -/
theorem nested
    (standing : Standing code start machine)
    (inner : Text)
    (ownResult : Bool) :
    Accounts fuel code start found (fun _ _ => True) (fun run => run inner ownResult) machine := by
  intro value after ran
  have standingAfter := standing.evaluate fuel inner ownResult
  rw [final_of_ok ran] at standingAfter
  refine ⟨standingAfter, ?_, True.intro⟩
  cases pending : machine.interpreter.error with
  | some error =>
      have kept := evaluate_keepsError fuel inner ownResult standing.free standing.busy pending
      rw [final_of_ok ran] at kept
      exact .kept (kept.trans pending.symm)
  | none =>
      cases failed : after.interpreter.error with
      | none => exact .kept (failed.trans pending.symm)
      | some error =>
          have left : (Call.after (evaluate fuel) ⟨inner, ownResult, machine⟩).interpreter.error =
              some error := by
            rw [Call.after, final_of_ok ran, failed]
          exact .raised pending failed (.nested standing pending left ⟨machine, if_pos rfl⟩)

/-- A flaw is reported in its place, if no error is pending. -/
theorem malformed
    (standing : Standing code start machine)
    {offset : Nat}
    {flaw : Flaw}
    (runsInto : found offset flaw) :
    Accounts fuel code start found (fun after _ => after.interpreter.error ≠ none)
      (fun _ => Eval.malformed ⟨true, false⟩ offset flaw) machine := by
  intro value after ran
  have raised : raiseAt offset (.malformed flaw) machine = .ok value after := ran
  have standingAfter := standing.raiseAt offset (.malformed flaw)
  rw [final_of_ok raised] at standingAfter
  cases pending : machine.interpreter.error with
  | some error =>
      have kept := raiseAt_keeps offset (.malformed flaw) machine error pending
      rw [final_of_ok raised] at kept
      exact ⟨standingAfter, .kept (kept.trans pending.symm), by simp [kept]⟩
  | none =>
      have located : after.interpreter.error = some (.locate (.malformed flaw) code offset) := by
        rw [raiseAt, interpreter_bind_apply, pending] at raised
        cases raised
        simp only [standing.source]
      exact ⟨standingAfter, .raised pending located (.flaw runsInto rfl), by simp [located]⟩

/-- A flaw ends what is being read. -/
theorem flawed
    {fits : Machine σ → α → Prop}
    (standing : Standing code start machine)
    {offset : Nat}
    {flaw : Flaw}
    (runsInto : found offset flaw)
    {value : α}
    (fit : ∀ after : Machine σ, after.interpreter.error ≠ none → fits after value) :
    Accounts fuel code start found fits
      (fun _ => Eval.malformed ⟨true, false⟩ offset flaw >>= fun _ => Pure.pure value) machine :=
  bind standing (Assembled.malformed ..).composed (malformed standing runsInto)
    fun _ between _ standing failed => pure standing (fit between failed)

/-- Skipping blanks leads to where the blank stretch ends. -/
theorem skipBlanks
    (standing : Standing code start machine)
    {cursor : Cursor}
    (isIn : cursor.IsIn code)
    (opened : ∀ offset, (Source.skipBlanks false cursor).openComment = some offset →
      found offset .openComment) :
    Accounts fuel code start found
      (fun _ place => place = (Source.skipBlanks false cursor).cursor ∧ place.IsIn code)
      (fun _ => Eval.skipBlanks ⟨true, false⟩ cursor) machine := by
  have ends := isIn.behindBlanks rfl
  simp only [Eval.skipBlanks]
  cases comment : (Source.skipBlanks false cursor).openComment with
  | none =>
      exact pure standing ⟨rfl, ends⟩
  | some offset =>
      exact flawed standing (opened offset comment) fun _ _ => ⟨rfl, ends⟩

/-! ## Parts -/

/-- What has been read is in the text, and reaches as far as it should if no error is pending. -/
def Reads (code : Text) (reaches : Cursor → Prop) (after : Machine σ) (read : Text × Cursor) :
    Prop :=
  read.2.IsIn code ∧ (after.interpreter.error = none → reaches read.2)

variable {reaches : Cursor → Prop} {rest : Text} {offset : Nat}

theorem bracePart
    (standing : Standing code start machine)
    (isIn : (⟨Byte.openBrace :: rest, offset⟩ : Cursor).IsIn code)
    (unclosed : Source.bracesEnd? rest = none → found offset .openBrace)
    (closes : ∀ inside behind, Source.bracesEnd? rest = some (inside, behind) →
      reaches ⟨behind, offset + 1 + inside.length + 1⟩) :
    Accounts fuel code start found (Reads code reaches)
      (fun _ => Eval.bracePart ⟨true, false⟩ ⟨rest, offset + 1⟩) machine := by
  simp only [Eval.bracePart]
  cases closed : Source.bracesEnd? rest with
  | some parts =>
      obtain ⟨inside, behind⟩ := parts
      exact pure standing ⟨isIn.behindBraces closed, fun _ => closes inside behind closed⟩
  | none =>
      refine flawed standing (unclosed closed) fun after failed => ?_
      exact ⟨isIn.next.atEnd, fun noError => absurd noError failed⟩

theorem bracketPart
    (standing : Standing code start machine)
    (isIn : (⟨Byte.openBracket :: rest, offset⟩ : Cursor).IsIn code)
    (unclosed : Source.bracketsEnd? rest = none → found offset .openBracket)
    (closes : ∀ inside behind, Source.bracketsEnd? rest = some (inside, behind) →
      reaches ⟨behind, offset + 1 + inside.length + 1⟩) :
    Accounts fuel code start found (Reads code reaches)
      (fun run => Eval.bracketPart ⟨true, false⟩ run ⟨rest, offset + 1⟩) machine := by
  simp only [Eval.bracketPart]
  cases closed : Source.bracketsEnd? rest with
  | some parts =>
      obtain ⟨inside, behind⟩ := parts
      refine bind standing (.nested inside false) (nested standing inside false)
        fun value between _ standing _ => pure standing ?_
      exact ⟨isIn.behindBrackets closed, fun _ => closes inside behind closed⟩
  | none =>
      refine flawed standing (unclosed closed) fun after failed => ?_
      exact ⟨isIn.next.atEnd, fun noError => absurd noError failed⟩

theorem dollarPart
    (standing : Standing code start machine)
    {name : Run σ → Eval σ (Text × Cursor)}
    (composed : Composed (Scope.whole False).toRealm name)
    (accounts : Accounts fuel code start found (Reads code reaches) name machine) :
    Accounts fuel code start found (Reads code reaches)
      (fun run => Eval.dollarPart run (name run)) machine := by
  refine bind standing composed accounts fun ⟨word, after⟩ between _ standing reads => ?_
  let expansion := between.interpreter.dollar ++ ListText.write [word]
  have follows : Accounts fuel code start found (fun _ read => read.2 = after)
      (fun run => run expansion false >>= fun value => Pure.pure (value, after)) between :=
    bind standing (.nested expansion false) (nested standing expansion false)
      fun _ _ _ standing _ => pure standing rfl
  refine (follows.weaken fun read ended same unfailed => ?_).of_apply fun run => rfl
  rw [Reads, same]
  exact ⟨reads.1, fun noError => reads.2 (unfailed noError)⟩

/-- What follows another reading, if that leaves no error. -/
theorem unlessFailed
    {between : Cursor → Prop}
    (standing : Standing code start machine)
    {first : Run σ → Eval σ (Text × Cursor)}
    {ended : Text → Text}
    {next : Run σ → Text → Cursor → Eval σ (Text × Cursor)}
    (composed : Composed (Scope.whole False).toRealm first)
    (accounts : Accounts fuel code start found (Reads code between) first machine)
    (accountsNext : ∀ value after there,
      first (evaluate fuel) machine = .ok (value, after) there → after.IsIn code → between after →
      Standing code start there →
      Accounts fuel code start found (Reads code reaches) (fun run => next run value after) there) :
    Accounts fuel code start found (Reads code reaches)
      (fun run => Eval.unlessFailed (first run) ended (next run)) machine := by
  refine bind standing composed accounts fun ⟨value, after⟩ there ran standing reads => ?_
  refine hasError ?_
  cases failed : there.interpreter.error with
  | some error =>
      exact pure standing ⟨reads.1, fun noError => by simp [failed] at noError⟩
  | none =>
      exact accountsNext value after there ran reads.1 (reads.2 failed) standing

/--
Quoted text is read up to its closing quote; without one the opening quote is at fault.  Behind what
is nested the quoted part goes on as one that has just been opened.
-/
theorem quotedPart
    {name : Run σ → Cursor → Eval σ (Text × Cursor)}
    (composed : ∀ cursor, Composed (Scope.whole False).toRealm fun run => name run cursor)
    {size : Nat}
    (leaves : ∀ cursor, Leaves cursor.rest (name (evaluate fuel) cursor))
    (names : ∀ (cursor : Cursor) (there : Machine σ), cursor.rest.length < size →
      cursor.IsIn code → Standing code start there →
      Accounts fuel code start (RunsInto none cursor) (Reads code (Spans none cursor))
        (fun run => name run cursor) there)
    {quote : UInt8}
    {opening : Nat}
    (bound : Nat) :
    ∀ (cursor : Cursor) (done : Text) (there : Machine σ), cursor.rest.length < bound →
      cursor.rest.length ≤ size → cursor.IsIn code → Standing code start there →
      (NeverCloses quote cursor → found opening .openQuote) →
      (∀ offset flaw, RunsInto (some quote) cursor offset flaw → found offset flaw) →
      Accounts fuel code start found (Reads code (Spans (some quote) cursor))
        (fun run => Eval.quotedPart ⟨true, false⟩ run (name run) quote opening bound cursor done)
        there := by
  induction bound with
  | zero =>
      intro cursor done there short
      exact absurd short (Nat.not_lt_zero _)
  | succ bound inductionHypothesis =>
      intro cursor done there short fitting isIn standing opened runs
      obtain ⟨text, offset⟩ := cursor
      have suffix := Source.quotedRun_suffix quote text offset done
      have stops := Source.quotedRun_stops quote text offset done
      cases ran : quotedRun quote text offset done with
      | mk literal stop =>
          rw [ran] at suffix stops
          have stopIn := isIn.behindRun ran
          obtain ⟨rest, stopped⟩ := stop
          cases rest with
          | nil =>
              simp only [Eval.quotedPart, ran]
              exact flawed standing (opened (.ends ran)) fun after failed =>
                ⟨stopIn, fun noError => absurd noError failed⟩
          | cons byte rest =>
              have shorter : rest.length < text.length := suffix.length_le
              have goesOn : ∀ (after : Cursor) (done : Text) (between : Machine σ),
                  after.rest.length ≤ rest.length → after.IsIn code →
                  Standing code start between →
                  (NeverCloses quote after → NeverCloses quote ⟨text, offset⟩) →
                  (∀ offset' flaw, RunsInto (some quote) after offset' flaw →
                    RunsInto (some quote) ⟨text, offset⟩ offset' flaw) →
                  (∀ ended, Spans (some quote) after ended →
                    Spans (some quote) ⟨text, offset⟩ ended) →
                  Accounts fuel code start found (Reads code (Spans (some quote) ⟨text, offset⟩))
                    (fun run => Eval.quotedPart ⟨true, false⟩ run (name run) quote opening bound
                      after done) between := by
                intro after done between fewer afterIn standing never runsOn spans
                have closer : after.rest.length < text.length := Nat.lt_of_le_of_lt fewer shorter
                have within : after.rest.length < bound :=
                  Nat.lt_of_lt_of_le closer (Nat.le_of_lt_succ short)
                refine (inductionHypothesis after done between within
                  (Nat.le_trans (Nat.le_of_lt closer) fitting) afterIn standing
                  (opened ∘ never) fun _ _ into => runs _ _ (runsOn _ _ into)).weaken ?_
                exact fun read ended reads _ =>
                  ⟨reads.1, fun noError => spans _ (reads.2 noError)⟩
              simp only [quotedPart_of_run ⟨true, false⟩ _ _ quote opening bound ran]
              split
              case isTrue isDollar =>
                obtain rfl := eq_of_beq isDollar
                have named := (names ⟨rest, stopped + 1⟩ there
                  (Nat.lt_of_lt_of_le shorter fitting) stopIn.next standing).widen
                    fun _ _ _ into => runs _ _ (.dollarInside ran into)
                refine unlessFailed standing (.dollarPart (composed _))
                  (dollarPart standing (composed _) named) ?_
                intro value after between ranName afterIn spans standing
                exact goesOn after _ between
                  (Leaves.dollarPart (leaves ⟨rest, stopped + 1⟩) _ _ _ ranName).length_le
                  afterIn standing (.dollarInside ran spans)
                  (fun _ _ => .behindDollar ran spans) fun _ => .dollarInside ran spans
              case isFalse notDollar =>
                split
                case isTrue isBracket =>
                  obtain rfl := eq_of_beq isBracket
                  have brackets : Accounts fuel code start found
                      (Reads code fun after => ∃ inside behind,
                        Source.bracketsEnd? rest = some (inside, behind) ∧
                          after = ⟨behind, stopped + 1 + inside.length + 1⟩)
                      (fun run => Eval.bracketPart ⟨true, false⟩ run ⟨rest, stopped + 1⟩) there :=
                    bracketPart standing stopIn (fun none => runs _ _ (.bracketInside ran none))
                      fun inside behind closed => ⟨inside, behind, closed, rfl⟩
                  refine unlessFailed standing (.bracketPart _ _) brackets ?_
                  rintro value after between ranBracket afterIn ⟨inside, behind, closed, rfl⟩
                    standing
                  exact goesOn _ _ between
                    (Leaves.bracketPart ⟨true, false⟩ (evaluate fuel) ⟨rest, stopped + 1⟩
                      _ _ _ ranBracket).length_le
                    afterIn standing (.bracketsInside ran closed)
                    (fun _ _ => .behindBrackets ran closed) fun _ => .bracketsInside ran closed
                case isFalse notBracket =>
                  have isQuote : byte = quote := by
                    rcases stops byte rfl with rfl | rfl | isQuote
                    · exact absurd (beq_self_eq_true _) notDollar
                    · exact absurd (beq_self_eq_true _) notBracket
                    · exact isQuote
                  subst isQuote
                  exact pure standing ⟨stopIn.next, fun _ => .closed ran⟩

/-- A part of a word reaches as far as its text says. -/
theorem part
    (bound : Nat) :
    ∀ (cursor : Cursor) (there : Machine σ), cursor.rest.length < bound → cursor.IsIn code →
      Standing code start there →
      Accounts fuel code start (RunsInto none cursor) (Reads code (Spans none cursor))
        (fun run => Eval.part ⟨true, false⟩ run bound cursor) there := by
  induction bound with
  | zero =>
      intro cursor there short
      exact absurd short (Nat.not_lt_zero _)
  | succ bound inductionHypothesis =>
      intro cursor there short isIn standing
      simp only [part_succ]
      refine bind standing (.skipBlanks _ _)
        (skipBlanks standing isIn fun _ comment => .openComment comment) ?_
      rintro place between ranBlanks standing ⟨isPlace, placeIn⟩
      have fewer := (skipBlanks_leaves ranBlanks).length_le
      obtain ⟨left, offset⟩ := place
      cases left with
      | nil =>
          exact pure standing ⟨placeIn, fun _ => .nothing isPlace.symm⟩
      | cons byte rest =>
          have shorter : rest.length < bound :=
            Nat.lt_of_lt_of_le fewer (Nat.le_of_lt_succ short)
          simp only [partAt]
          split
          case isTrue isDollar =>
            obtain rfl := eq_of_beq isDollar
            have named := (inductionHypothesis ⟨rest, offset + 1⟩ between shorter placeIn.next
              standing).widen fun _ _ _ into => RunsInto.dollar isPlace.symm into
            refine (dollarPart standing (.part _ _ _) named).weaken ?_
            exact fun read ended reads _ =>
              ⟨reads.1, fun noError => .dollar isPlace.symm (reads.2 noError)⟩
          case isFalse notDollar =>
            split
            case isTrue isBrace =>
              obtain rfl := eq_of_beq isBrace
              exact bracePart standing placeIn (.openBrace isPlace.symm)
                fun inside behind closed => .braces isPlace.symm closed
            case isFalse notBrace =>
              split
              case isTrue isBracket =>
                obtain rfl := eq_of_beq isBracket
                exact bracketPart standing placeIn (.openBracket isPlace.symm)
                  fun inside behind closed => .brackets isPlace.symm closed
              case isFalse notBracket =>
                split
                case isTrue isQuote =>
                  have quotes : byte = Byte.doubleQuote ∨ byte = Byte.singleQuote := by
                    simpa using isQuote
                  refine (quotedPart (fun cursor => .part _ _ _)
                    (fun cursor => .part _ _ _ cursor) inductionHypothesis (bound + 1)
                    ⟨rest, offset + 1⟩ [] between (Nat.lt_succ_of_lt shorter)
                    (Nat.le_of_lt shorter) placeIn.next standing
                    (fun never => .openQuote isPlace.symm quotes never)
                    fun _ _ into => .quoted isPlace.symm quotes into).weaken ?_
                  exact fun read ended reads _ =>
                    ⟨reads.1, fun noError => .quoted isPlace.symm quotes (reads.2 noError)⟩
                case isFalse notQuote =>
                  refine pure standing
                    ⟨placeIn.behindStretch isBare, fun _ => .bare isPlace.symm ?_⟩
                  simp_all

end Accounts

/-! ## Words -/

/-- Where a part takes nothing, there is a closer that nothing opened. -/
theorem closes_of_part
    {reader : Reader}
    {run : Run σ}
    {bound : Nat}
    {byte : UInt8}
    {rest value : Text}
    {offset : Nat}
    {machine ended : Machine σ}
    (stays : part reader run (bound + 1) ⟨byte :: rest, offset⟩ machine =
      .ok (value, ⟨byte :: rest, offset⟩) ended)
    (notSpace : Byte.isSpace byte = false)
    (notSeparator : Byte.isSeparator byte = false) :
    byte = Byte.closeBrace ∨ byte = Byte.closeBracket := by
  rw [part_succ] at stays
  obtain ⟨place, between, skipped, ranPart⟩ := bind_eq_ok stays
  have isPlace : place = ⟨byte :: rest, offset⟩ := by
    rcases skipBlanks_moves skipped with same | shorter
    · exact same
    · obtain ⟨left, stopped⟩ := place
      cases left with
      | nil =>
          cases ranPart
      | cons first behind =>
          exact absurd (partAt_moves ranPart).length_le (Nat.not_le_of_lt shorter)
  subst isPlace
  have never : ∀ {reading : Eval σ (Text × Cursor)}, Leaves rest reading →
      reading between ≠ .ok (value, ⟨byte :: rest, offset⟩) ended := by
    intro reading leaves ran
    exact Nat.not_succ_le_self _ (leaves _ _ _ ran).length_le
  simp only [partAt] at ranPart
  split at ranPart
  · exact absurd ranPart (never (.dollarPart (.part reader run bound _)))
  · split at ranPart
    · exact absurd ranPart (never (.bracePart reader _))
    · split at ranPart
      · exact absurd ranPart (never (.bracketPart reader run _))
      · split at ranPart
        · exact absurd ranPart
            (never (.quotedPart reader run (.part reader run bound) byte offset _ _ []))
        · next notDollar notBrace notBracket notQuote =>
          have notBare : isBare byte = false := by
            rw [Bool.eq_false_iff]
            intro bare
            have passed := congrArg Cursor.rest (congrArg Prod.snd
              (EStateM.Result.ok.inj ranPart).1)
            simp only [List.dropWhile_cons_of_pos bare] at passed
            have shorter := (List.dropWhile_suffix isBare (l := rest)).length_le
            rw [passed] at shorter
            exact Nat.not_succ_le_self _ shorter
          refine closes_of_not_isBare notBare (by simpa using notDollar) (by simpa using notBrace)
            (by simpa using notBracket) (by simpa using notQuote) ?_ notSeparator
          simp [notSpace]

namespace Accounts

variable {fuel : Nat} {code : Text} {start : Nat} {machine : Machine σ}

/-- What has been read leads on to a place in the text, if it leads on at all. -/
def Leads {γ : Type} (code : Text) (reaches : Cursor → Prop) (there : Machine σ)
    (read : Option (γ × Cursor)) : Prop :=
  ∀ value after, read = some (value, after) →
    after.IsIn code ∧ (there.interpreter.error = none → reaches after)

theorem leads_none
    {γ : Type}
    {reaches : Cursor → Prop}
    {there : Machine σ} :
    Leads code reaches there (none : Option (γ × Cursor)) := by
  intro value after isRead
  cases isRead

/-- Flaws behind a cursor are flaws of the words that start at another one. -/
def Joins (start after : Cursor) : Prop :=
  ∀ offset flaw, WordsRunInto after offset flaw → WordsRunInto start offset flaw

/-- The parts of a word are read; a part that takes nothing is a closer at fault. -/
theorem word
    (depth bound : Nat) :
    ∀ (cursor : Cursor) (done : Text) (there : Machine σ), cursor.rest.length < depth →
      cursor.IsIn code → cursor.OnWord → Standing code start there →
      Accounts fuel code start (WordsRunInto cursor) (Leads code (Joins cursor))
        (fun run => Eval.word ⟨true, false⟩ run depth bound cursor done) there := by
  induction bound with
  | zero =>
      intro cursor done there short isIn onWord standing
      exact pure standing leads_none
  | succ bound inductionHypothesis =>
      intro cursor done there short isIn onWord standing
      simp only [Eval.word]
      refine bind standing (.part _ _ _)
        ((part depth cursor there short isIn standing).widen fun _ _ _ => .part) ?_
      rintro ⟨value, after⟩ between ran standing reads
      simp only
      split
      case isTrue stays =>
        obtain rfl : after = cursor := isIn.eq_of_offset reads.1 (beq_iff_eq.mp stays)
        obtain ⟨less, rfl⟩ := Nat.exists_eq_succ_of_ne_zero (Nat.ne_zero_of_lt short)
        obtain ⟨byte, rest, isRest, notSpace, notSeparator⟩ := onWord
        obtain ⟨_, offset⟩ := after
        cases isRest
        have closes := closes_of_part ran notSpace notSeparator
        exact flawed standing (.strayCloser closes) fun _ _ => leads_none
      case isFalse moved =>
        have shorter : after.rest.length < depth :=
          Nat.lt_of_le_of_lt (part_moves ran).length_le short
        refine hasError ?_
        split
        case isTrue ends =>
          refine pure standing ?_
          rintro _ _ ⟨⟩
          exact ⟨reads.1, fun noError _ _ => .behindPart (reads.2 noError)⟩
        case isFalse goesOn =>
          simp only [Bool.or_eq_true, not_or, Bool.not_eq_true] at goesOn
          obtain ⟨⟨⟨notDone, notSpace⟩, notSeparator⟩, noError⟩ := goesOn
          have unfailed : between.interpreter.error = none := by simpa using noError
          have settled : after.Settled := by simp [Cursor.Settled, notSpace]
          have joins : Joins cursor after := fun _ _ => .behindPart (reads.2 unfailed)
          refine ((inductionHypothesis after _ between shorter reads.1
            (settled.onWord notDone notSeparator) standing).widen fun _ => joins).weaken ?_
          intro read ended leads _ value final isRead
          obtain ⟨finalIn, joined⟩ := leads value final isRead
          exact ⟨finalIn, fun noError _ _ into => joins _ _ (joined noError _ _ into)⟩

/-- Words are read up to the end of a command. -/
theorem wordsFrom
    (depth bound : Nat) :
    ∀ (cursor : Cursor) (done : List Text) (there : Machine σ), cursor.rest.length < depth →
      cursor.IsIn code → cursor.Settled → Standing code start there →
      Accounts fuel code start (WordsRunInto cursor) (Leads code fun _ => True)
        (fun run => Eval.wordsFrom ⟨true, false⟩ run depth bound cursor done) there := by
  induction bound with
  | zero =>
      intro cursor done there short isIn settled standing
      refine pure standing ?_
      rintro _ _ ⟨⟩
      exact ⟨isIn, fun _ => True.intro⟩
  | succ bound inductionHypothesis =>
      intro cursor done there short isIn settled standing
      simp only [Eval.wordsFrom]
      refine hasError ?_
      split
      case isTrue ends =>
        refine pure standing ?_
        rintro _ _ ⟨⟩
        exact ⟨isIn, fun _ => True.intro⟩
      case isFalse goesOn =>
        simp only [Bool.not_false, Bool.true_and, Bool.or_eq_true, not_or,
          Bool.not_eq_true] at goesOn
        obtain ⟨⟨notDone, notSeparator⟩, -⟩ := goesOn
        refine bind standing (.word _ _ _ _ _) (word depth depth cursor [] there short isIn
          (settled.onWord notDone notSeparator) standing) ?_
        intro found between ranWord standing leads
        cases found with
        | none =>
            exact pure standing leads_none
        | some read =>
            obtain ⟨value, after⟩ := read
            obtain ⟨afterIn, joins⟩ := leads value after rfl
            have shorter := word_shortens _ _ _ _ _ _ ranWord
            have behindWord : Accounts fuel code start (WordsRunInto after)
                (Leads code fun _ => True)
                (fun run => Eval.skipBlanks ⟨true, false⟩ after >>= fun after =>
                  Eval.wordsFrom ⟨true, false⟩ run depth bound after (value :: done))
                between := by
              refine bind standing (.skipBlanks _ _) (skipBlanks standing afterIn
                fun _ comment => .part (.openComment comment)) ?_
              rintro place ended ranBlanks standing ⟨rfl, placeIn⟩
              have fewer := (skipBlanks_moves ranBlanks).length_le
              exact (inductionHypothesis _ _ ended
                (Nat.lt_of_le_of_lt fewer (Nat.lt_trans shorter short)) placeIn
                (Source.skipFrom_settled .plain _ _) standing).widen
                  fun _ _ _ => .behindBlanks
            exact behindWord.widen joins

/-- The words of a command are read. -/
theorem words
    {cursor : Cursor}
    {depth : Nat}
    (standing : Standing code start machine)
    (short : cursor.rest.length < depth)
    (isIn : cursor.IsIn code) :
    Accounts fuel code start (WordsRunInto cursor) (Leads code fun _ => True)
      (fun run => Eval.words ⟨true, false⟩ run depth cursor) machine := by
  simp only [Eval.words]
  refine bind standing (.skipBlanks _ _)
    (skipBlanks standing isIn fun _ comment => .part (.openComment comment)) ?_
  rintro place between ranBlanks standing ⟨rfl, placeIn⟩
  exact (wordsFrom depth depth _ [] between
    (Nat.lt_of_le_of_lt (skipBlanks_moves ranBlanks).length_le short) placeIn
    (Source.skipFrom_settled .plain _ _) standing).widen fun _ _ _ => .behindBlanks

/-- The next command is behind separators, blanks and comments. -/
theorem nextCommand
    {cursor : Cursor}
    (standing : Standing code start machine)
    (isIn : cursor.IsIn code) :
    Accounts fuel code start (GapRunsInto cursor)
      (fun _ next => next.IsIn code ∧ next.Settled)
      (fun _ => Eval.nextCommand ⟨true, false⟩ cursor) machine := by
  simp only [Eval.nextCommand]
  refine bind standing (.skipBlanks _ _) (skipBlanks standing isIn fun _ => .blanks) ?_
  rintro place between - standing ⟨rfl, placeIn⟩
  refine (skipBlanks standing (placeIn.behindStretch Byte.isSeparator)
    fun _ => .behindSeparators).weaken ?_
  rintro next after ⟨rfl, nextIn⟩ -
  exact ⟨nextIn, Source.skipFrom_settled .plain _ _⟩

end Accounts

end LittleScript.Eval
