import LittleScript.Proofs.Comparison

namespace LittleScript.Eval

/-!
# Replacing the built-in commands

A mark is something that evaluation may do to the world and does not take back.  If built-in
commands are called in another way only where calling them marks the world, an evaluation ends
alike with these commands, or it leaves the world marked.  If they are called alike wherever the
moves of the evaluation lead, it ends alike.  What reads and surrounds commands opens no jail, so
about code in jails nothing has to be known there.
-/

open Source (Cursor)

variable {σ α β : Type}

/-! ## Without a command -/

/-- The part of a realm in which a built-in command is not allowed. -/
def Realm.without (realm : Realm σ) (command : Builtin) : Realm σ :=
  { realm with
    allowed := fun called => realm.allowed called ∧ called ≠ command
    up := fun allowed => realm.up allowed.1
    down := fun allowed => realm.down allowed.1 }

/-- The part of a realm in which no jail is opened. -/
abbrev Realm.unjailed (realm : Realm σ) : Realm σ :=
  realm.without .jailEvaluate

section Without

variable {realm : Realm σ} {command : Builtin} {rel : Machine σ → Machine σ → Prop}
  {onward : World σ → World σ → Prop} {run other : Run σ}

theorem Move.of_without
    {before after : Machine σ}
    (move : Move (realm.without command) before after) :
    Move realm before after := by
  cases move with
  | aside same => exact .aside same
  | define name parameters body => exact .define name parameters body
  | rename moved => exact .rename moved
  | touch touches => exact .touch touches
  | store frame name value target => exact .store frame name value target
  | declare name allowed missing => exact .declare name allowed.1 missing
  | watch name code allowed => exact .watch name code allowed.1
  | visit borders below => exact .visit borders below
  | push callee ordered owned => exact .push callee ordered owned

theorem Leading.without
    (leading : Leading realm rel onward)
    (command : Builtin) :
    Leading (realm.without command) rel onward where
  refl := leading.refl
  trans := leading.trans
  holds := leading.holds
  move held move := leading.move held move.of_without
  back := leading.back
  pop := leading.pop
  goesOnward := leading.goesOnward
  onwardTrans := leading.onwardTrans

theorem Through.without
    (through : Through realm rel run)
    (command : Builtin) :
    Through (realm.without command) rel run where
  here := through.here
  jailed allowed := through.jailed allowed.1

/-- What opens no jail depends on nested code only where the realm holds. -/
theorem Assembled.congr_unjailed
    (leading : Leading realm rel onward)
    (through : Through realm rel run)
    {action : Run σ → Eval σ α}
    (assembled : Assembled realm.unjailed action)
    {machine : Machine σ}
    (held : realm.holds machine.interpreter)
    (agree : ∀ code ownResult {start : Machine σ}, realm.holds start.interpreter →
      other code ownResult start = run code ownResult start) :
    action other machine = action run machine := by
  refine assembled.congr (leading.without _) (through.without _) held fun call reached => ?_
  cases reached with
  | here code ownResult led => exact agree code ownResult (leading.holds led held)
  | jailed _ _ allowed _ => exact absurd rfl allowed.2

end Without

/-! ## Alike until the world is marked -/

/-- Of two actions the second leads on, and the first ends like it or it leaves the world marked. -/
structure AlikeUnless
    (rel : Machine σ → Machine σ → Prop)
    (marks : World σ → Prop)
    (other plain : Eval σ α)
    (machine : Machine σ) : Prop where
  leads : rel machine (final plain machine)
  same : other machine = plain machine ∨ marks (final plain machine).world

/-- From one world to another a mark is not taken back. -/
def Stays (onward : World σ → World σ → Prop) (marks : World σ → Prop) : Prop :=
  ∀ {before after}, onward before after → marks before → marks after

section Marks

variable {realm : Realm σ} {rel : Machine σ → Machine σ → Prop}
  {onward : World σ → World σ → Prop} {marks : World σ → Prop} {run other : Run σ}
  {machine : Machine σ}

namespace AlikeUnless

/-- What follows alike on two actions that are alike. -/
theorem bind
    (leading : Leading realm rel onward)
    (stays : Stays onward marks)
    {other plain : Eval σ α}
    {otherNext next : α → Eval σ β}
    (first : AlikeUnless rel marks other plain machine)
    (second : ∀ value between, plain machine = .ok value between → rel machine between →
      AlikeUnless rel marks (otherNext value) (next value) between) :
    AlikeUnless rel marks (other >>= otherNext) (plain >>= next) machine := by
  have leads := first.leads
  cases ran : plain machine with
  | error stop after =>
      have stops : (plain >>= next) machine = .error stop after := bind_of_error ran
      rw [final_of_error ran] at leads
      refine ⟨by rwa [final_of_error stops], ?_⟩
      rw [stops, final_of_error stops]
      rcases first.same with same | marked
      · exact .inl (bind_of_error (same.trans ran))
      · rw [final_of_error ran] at marked
        exact .inr marked
  | ok value between =>
      have goes : (plain >>= next) machine = next value between := bind_of_ok ran
      have sameEnd : final (plain >>= next) machine = final (next value) between := by
        rw [final, final, goes]
      rw [final_of_ok ran] at leads
      have follows := second value between ran leads
      refine ⟨?_, ?_⟩
      · rw [sameEnd]
        exact leading.trans leads follows.leads
      · rw [sameEnd, goes]
        rcases first.same with same | marked
        · exact follows.same.imp_left fun sameNext =>
            (bind_of_ok (same.trans ran)).trans sameNext
        · rw [final_of_ok ran] at marked
          exact .inr (stays (leading.goesOnward follows.leads) marked)

/-- Actions that go like others. -/
theorem of_eq
    {other plain likeOther likePlain : Eval σ α}
    (alike : AlikeUnless rel marks likeOther likePlain machine)
    (sameOther : other machine = likeOther machine)
    (samePlain : plain machine = likePlain machine) :
    AlikeUnless rel marks other plain machine := by
  have sameEnd : final plain machine = final likePlain machine := by
    rw [final, final, samePlain]
  refine ⟨?_, ?_⟩
  · rw [sameEnd]
    exact alike.leads
  · rw [sameEnd, sameOther, samePlain]
    exact alike.same

/-- Scripts are alike if their bodies are. -/
theorem script
    (leading : Leading realm rel onward)
    (stays : Stays onward marks)
    {other plain : Eval σ Text}
    (code : Text)
    (held : realm.holds machine.interpreter)
    (body : realm.holds (entered code machine).interpreter →
      AlikeUnless rel marks other plain (entered code machine)) :
    AlikeUnless rel marks (asScript code other) (asScript code plain) machine := by
  have enters := leading.move held (.of_control machine (0 :: machine.interpreter.active)
    (entered code machine).interpreter.source machine.interpreter.error
    machine.interpreter.catchers)
  have heldInside := leading.holds enters held
  have inside := body heldInside
  have leaves := leading.move (leading.holds inside.leads heldInside) (.of_control
    (final plain (entered code machine)) machine.interpreter.active
    (final plain (entered code machine)).interpreter.source
    (final plain (entered code machine)).interpreter.error
    (final plain (entered code machine)).interpreter.catchers)
  have sameEnd : final (asScript code plain) machine =
      left machine (final plain (entered code machine)) :=
    final_ensuring _ _ _
  constructor
  · rw [sameEnd]
    exact leading.trans enters (leading.trans inside.leads leaves)
  · rw [sameEnd, asScript, asScript, ensuring, ensuring]
    exact inside.same.imp (fun same => by rw [same]) fun marked =>
      stays (leading.goesOnward leaves) marked

end AlikeUnless

/-- An assembled action ends alike if its nested calls do, unless one of them marks the world. -/
theorem Assembled.alikeUnless
    (leading : Leading realm rel onward)
    (through : Through realm rel run)
    (stays : Stays onward marks)
    {action : Run σ → Eval σ α}
    (assembled : Assembled realm action)
    (held : realm.holds machine.interpreter)
    (nested : ∀ call, Reached realm rel machine call →
      call.result other = call.result run ∨ marks (call.after run).world) :
    AlikeUnless rel marks (action other) (action run) machine := by
  obtain ⟨calls, itinerary⟩ := assembled.exists_itinerary leading through machine held
  refine ⟨itinerary.ends, ?_⟩
  by_cases marked : ∃ call ∈ calls, marks (call.after run).world
  · obtain ⟨call, member, isMarked⟩ := marked
    exact .inr (stays (itinerary.followed call member) isMarked)
  · refine .inl (itinerary.determined other fun call member => ?_)
    exact (nested call (itinerary.reached call member)).resolve_right fun isMarked =>
      marked ⟨call, member, isMarked⟩

end Marks

/-! ## Evaluations -/

section Evaluations

variable {scope : Scope σ} {rel : Machine σ → Machine σ → Prop}
  {onward : World σ → World σ → Prop} {marks : World σ → Prop}

/-- Evaluations are compared as long as the world is not marked. -/
def Leading.comparison
    (leading : Leading scope.toRealm rel onward)
    (drops : scope.drops)
    (through : ∀ fuel, Through scope.toRealm rel (evaluate fuel))
    (stays : Stays onward marks) :
    Comparison scope.toRealm where
  alike other plain machine := AlikeUnless rel marks other plain machine
  part := scope.toRealm.unjailed
  drops := drops
  of_eq alike sameOther samePlain := alike.of_eq (sameOther _ rfl) samePlain
  exhausted {_ machine} _ := ⟨leading.refl machine, .inl rfl⟩
  bind held first second := first.bind leading stays fun value between ran led =>
    second value between ran (leading.holds led held)
  script code _ held body := .script leading stays code held body
  assembled {fuel} _ runs _ _ assembled _ held := by
    refine assembled.alikeUnless (leading.without _) ((through fuel).without _) stays held
      fun call reached => ?_
    cases reached with
    | here code ownResult led => exact (runs code ownResult _ (leading.holds led held)).same
    | jailed _ _ allowed _ => exact absurd rfl allowed.2

/--
If built-in commands are called alike wherever a scope holds, granted that nested code runs alike
there, then all code runs alike there.
-/
theorem Leading.evaluateVia_eq
    (leading : Leading scope.toRealm rel onward)
    (drops : scope.drops)
    (through : ∀ fuel, Through scope.toRealm rel (evaluate fuel))
    {builtins : Builtins σ}
    (calls : ∀ (other : Run σ) (fuel : Nat),
      (∀ code ownResult {machine : Machine σ}, scope.holds machine.interpreter →
        other code ownResult machine = evaluate fuel code ownResult machine) →
      ∀ command arguments {machine : Machine σ}, scope.holds machine.interpreter →
        scope.allowed command →
        builtins other fuel command arguments machine =
          callBuiltin (evaluate fuel) fuel command arguments machine)
    (fuel : Nat)
    (code : Text)
    (ownResult : Bool)
    {machine : Machine σ}
    (held : scope.holds machine.interpreter) :
    evaluateVia (dispatchWith builtins) fuel code ownResult machine =
      evaluate fuel code ownResult machine := by
  have unmarked : Stays onward fun _ => False := fun _ marked => marked
  have runs := (leading.comparison drops through unmarked).evaluateVia_dispatchWith
    (fun other fuel runs command arguments machine held allowed => by
      obtain ⟨_, itinerary⟩ := (Assembled.callBuiltin fuel allowed arguments).exists_itinerary
        leading (through fuel) machine held
      have same := calls other fuel
        (fun code ownResult machine held =>
          (runs code ownResult machine held).same.resolve_right id)
        command arguments held allowed
      exact ⟨itinerary.ends, .inl same⟩)
    fuel
  exact (runs code ownResult machine held).same.resolve_right id

end Evaluations

end LittleScript.Eval
