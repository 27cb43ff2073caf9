import LittleScript.Proofs.Blank
import LittleScript.Proofs.ExpressionTree
import LittleScript.Proofs.IntegerText

namespace LittleScript.Expression

/-!
# Reading the text of a tree

The reader evaluates while it reads.  On the text of a tree it comes to what the tree comes to, and
it stops where the text of the tree ends.  A chain of operators of one level is a tree that leans to
the left, so the reader is followed along the left operands: it goes on with the chain where the
left operand ends.
-/

/-! ## What is read, and what is left -/

/-- Whether nothing that belongs to a literal follows. -/
def Ends (rest : Text) : Prop :=
  ∀ byte ∈ rest.head?, byte = Byte.space ∨ byte = Byte.closeParen

/-- Whether no operator of a level, or of a tighter one, follows. -/
def Stops (level : Nat) (rest : Text) : Prop :=
  ∀ tighter, level ≤ tighter → Operator.read? tighter (skipBlanks rest) = none

/-- `Yields reading outcome rest`: the outcome, and where it is a value, the rest but for blanks. -/
def Yields (reading : Reading) (outcome : Except Fault Number) (rest : Text) : Prop :=
  reading.outcome = outcome ∧
    ((∃ number, outcome = .ok number) → skipBlanks reading.rest = skipBlanks rest)

/-- The reader goes on with a chain where a tree ends, unless the tree has a fault. -/
def GoesOnWith (reading : Reading) (outcome : Except Fault Number) (rest : Text)
    (next : Number → Text → Reading) : Prop :=
  match outcome with
  | .error fault => reading.outcome = .error fault
  | .ok number => ∃ after, skipBlanks after = skipBlanks rest ∧ reading = next number after

/-- Behind blanks there are no more blanks. -/
theorem skipBlanks_idempotent
    (text : Text) :
    skipBlanks (skipBlanks text) = skipBlanks text := by
  induction text with
  | nil =>
      rfl
  | cons byte rest inductionHypothesis =>
      by_cases isBlank : Byte.isSpace byte = true
      · have skipped : skipBlanks (byte :: rest) = skipBlanks rest :=
          List.dropWhile_cons_of_pos isBlank
        rw [skipped, inductionHypothesis]
      · have stays : skipBlanks (byte :: rest) = byte :: rest :=
          List.dropWhile_cons_of_neg isBlank
        rw [stays, stays]

/-- A space in front is skipped. -/
theorem skipBlanks_space
    (text : Text) :
    skipBlanks (Byte.space :: text) = skipBlanks text :=
  rfl

/-- An operator between spaces is found at its own level only. -/
theorem Operator.read?_symbol
    (operator : Operator)
    (level : Nat)
    (rest : Text) :
    read? level (operator.symbol ++ Byte.space :: rest) =
      if level = operator.level then some (operator, Byte.space :: rest) else none := by
  match level with
  | 0 | 1 | 2 | 3 | 4 | 5 | 6 | 7 | 8 => cases operator <;> rfl
  | level + 9 => cases operator <;> rfl

/-- The symbol of an operator does not start with a blank. -/
theorem Operator.skipBlanks_symbol
    (operator : Operator)
    (rest : Text) :
    skipBlanks (Byte.space :: (operator.symbol ++ rest)) = operator.symbol ++ rest := by
  cases operator <;> rfl

/-- Every operator is at one of the levels. -/
theorem Operator.level_lt
    (operator : Operator) :
    operator.level < levels := by
  cases operator <;> decide

/-- An operator stops whatever binds tighter. -/
theorem Operator.stops
    (operator : Operator)
    (rest : Text) :
    Stops (operator.level + 1) (Byte.space :: (operator.symbol ++ Byte.space :: rest)) := by
  intro tighter isTighter
  rw [skipBlanks_symbol, read?_symbol, if_neg (by omega)]

/-- At the end of the text no operator follows. -/
theorem stops_nil
    (level : Nat) :
    Stops level [] := by
  intro tighter _
  match tighter with
  | 0 | 1 | 2 | 3 | 4 | 5 | 6 | 7 | 8 => rfl
  | tighter + 9 => rfl

/-- A closing parenthesis is no operator. -/
theorem stops_closeParen
    (level : Nat)
    (rest : Text) :
    Stops level (Byte.closeParen :: rest) := by
  intro tighter _
  match tighter with
  | 0 | 1 | 2 | 3 | 4 | 5 | 6 | 7 | 8 => rfl
  | tighter + 9 => rfl

/-! ## Chains -/

/-- Without an operator of its level a chain ends. -/
theorem chain_yields
    {level : Nat}
    (operand : Text → Reading)
    (bound : Nat)
    (number : Number)
    {after rest : Text}
    (same : skipBlanks after = skipBlanks rest)
    (stops : Stops level rest) :
    Yields (chain level operand bound number after) (.ok number) rest := by
  cases bound with
  | zero =>
      exact ⟨rfl, fun _ => same⟩
  | succ bound =>
      rw [chain, same, stops level (Nat.le_refl _)]
      exact ⟨rfl, fun _ => skipBlanks_idempotent rest⟩

/-- A chain ends where no operator of its level follows. -/
theorem GoesOnWith.yields
    {level : Nat}
    {operand : Text → Reading}
    {bound : Nat}
    {reading : Reading}
    {outcome : Except Fault Number}
    {rest : Text}
    (goesOn : GoesOnWith reading outcome rest (chain level operand bound))
    (stops : Stops level rest) :
    Yields reading outcome rest := by
  cases outcome with
  | error fault =>
      exact ⟨goesOn, fun ⟨_, isNumber⟩ => nomatch isNumber⟩
  | ok number =>
      obtain ⟨after, same, rfl⟩ := goesOn
      exact chain_yields operand bound number same stops

/-- A looser level goes on with its chain behind what a tighter one has read. -/
theorem binary_goesOn
    {unary : Text → Reading}
    {bound tighter : Nat}
    {text rest : Text}
    {outcome : Except Fault Number}
    (yields : Yields (binary unary bound tighter text) outcome rest) :
    GoesOnWith (binary unary bound (tighter + 1) text) outcome rest
      (chain (levels - (tighter + 1)) (binary unary bound tighter) bound) := by
  rw [binary]
  obtain ⟨isOutcome, isRest⟩ := yields
  generalize binary unary bound tighter text = reading at isOutcome isRest
  obtain ⟨found, after⟩ := reading
  subst isOutcome
  cases found with
  | error fault =>
      rfl
  | ok number =>
      exact ⟨after, isRest ⟨number, rfl⟩, rfl⟩

/-- Blanks before an operand do not matter. -/
theorem binary_space
    (bound count tighter : Nat)
    (text : Text) :
    binary (unary (bound + 1)) count tighter (Byte.space :: text) =
      binary (unary (bound + 1)) count tighter text := by
  induction tighter with
  | zero =>
      simp only [binary, unary, skipBlanks_space]
  | succ tighter inductionHypothesis =>
      simp only [binary, inductionHypothesis]

/-- One operator of a chain, with its right operand. -/
theorem chain_operator
    {operator : Operator}
    {operand : Text → Reading}
    {bound : Nat}
    {left : Number}
    {after behind rest : Text}
    {outcome : Except Fault Number}
    (found : skipBlanks after = operator.symbol ++ Byte.space :: behind)
    (yields : Yields (operand (Byte.space :: behind)) outcome rest) :
    GoesOnWith (chain operator.level operand (bound + 1) left after)
      (outcome.bind fun right => operator.apply left right) rest
      (chain operator.level operand bound) := by
  rw [chain, found, operator.read?_symbol, if_pos rfl]
  obtain ⟨isOutcome, isRest⟩ := yields
  simp only
  generalize operand (Byte.space :: behind) = reading at isOutcome isRest
  obtain ⟨found, behind⟩ := reading
  subst isOutcome
  cases found with
  | error fault =>
      rfl
  | ok right =>
      simp only [Except.bind]
      cases operator.apply left right with
      | error fault => rfl
      | ok result => exact ⟨behind, isRest ⟨right, rfl⟩, rfl⟩

/-! ## Trees at all levels -/

/-- Enough bounds to read a tree, and nothing behind it that belongs to its last literal. -/
structure Fits (tree : Tree) (bound count : Nat) (rest : Text) : Prop where
  deep : (tree.print ++ rest).length < bound
  long : tree.print.length < count
  ends : Ends rest

/-- Reading the levels from a tighter one on comes to what a tree comes to. -/
def YieldsAt (tree : Tree) (tighter : Nat) : Prop :=
  ∀ (bound count : Nat) (rest : Text), Fits tree bound count rest → Stops (levels - tighter) rest →
    Yields (binary (unary bound) count tighter (tree.print ++ rest)) tree.evaluate rest

/--
Reading one level more goes on with a chain of that level, with the operators that are left; an
operator of the level itself may follow.
-/
def GoesOnAt (tree : Tree) (tighter : Nat) : Prop :=
  ∀ (bound count : Nat) (rest : Text), Fits tree bound count rest → Stops (levels - tighter) rest →
    ∃ left, count ≤ left + tree.print.length ∧
      GoesOnWith (binary (unary bound) count (tighter + 1) (tree.print ++ rest)) tree.evaluate rest
        (chain (levels - (tighter + 1)) (binary (unary bound) count tighter) left)

/-- The reader comes to what the tree comes to at every level that the tree can stand at. -/
structure Tree.Reads (tree : Tree) : Prop where
  yieldsAt : ∀ {tighter : Nat}, tighter ≤ levels → levels - tighter ≤ tree.level →
    YieldsAt tree tighter
  goesOnAt : ∀ {tighter : Nat}, tighter < levels → levels - (tighter + 1) ≤ tree.level →
    GoesOnAt tree tighter

/-- Where no operator of a level follows, none of a tighter one does. -/
theorem Stops.mono
    {level tighter : Nat}
    {rest : Text}
    (stops : Stops level rest)
    (isTighter : level ≤ tighter) :
    Stops tighter rest :=
  fun other isOther => stops other (Nat.le_trans isTighter isOther)

/-- A chain goes on behind whatever its operands yield. -/
theorem YieldsAt.goesOnAt
    {tree : Tree}
    {tighter : Nat}
    (yieldsAt : YieldsAt tree tighter) :
    GoesOnAt tree tighter :=
  fun _ count _ fits stops =>
    ⟨count, Nat.le_add_right _ _, binary_goesOn (yieldsAt _ _ _ fits stops)⟩

/-- A chain that could go on yields what it has where it ends. -/
theorem GoesOnAt.yieldsAt
    {tree : Tree}
    {tighter : Nat}
    (goesOnAt : GoesOnAt tree tighter) :
    YieldsAt tree (tighter + 1) := by
  intro bound count rest fits stops
  obtain ⟨left, -, goesOn⟩ := goesOnAt bound count rest fits (stops.mono (by omega))
  exact goesOn.yields stops

/-- What a tree comes to at its own level it comes to at every looser one. -/
theorem YieldsAt.looser
    {tree : Tree}
    {start : Nat}
    (yieldsAt : YieldsAt tree start)
    (more : Nat) :
    YieldsAt tree (start + more) := by
  induction more with
  | zero => exact yieldsAt
  | succ more inductionHypothesis => exact inductionHypothesis.goesOnAt.yieldsAt

/-- Signs, groups and literals are read at every level when they are read at the tightest. -/
theorem Tree.reads_of_tightest
    {tree : Tree}
    (tightest : YieldsAt tree 0) :
    tree.Reads := by
  have yields : ∀ tighter, YieldsAt tree tighter := by
    intro tighter
    have looser := tightest.looser tighter
    rwa [Nat.zero_add] at looser
  exact ⟨fun _ _ => yields _, fun _ _ => (yields _).goesOnAt⟩

/-- An operator with its operands is read at every level when its chain goes on at its own. -/
theorem Tree.reads_of_goesOnAt
    {tree : Tree}
    {tighter : Nat}
    (isLevel : tree.level + (tighter + 1) = levels)
    (goesOnAt : GoesOnAt tree tighter) :
    tree.Reads := by
  have yields : ∀ more, YieldsAt tree (tighter + 1 + more) := goesOnAt.yieldsAt.looser
  constructor
  · intro other small isTighter
    obtain ⟨more, rfl⟩ := Nat.exists_eq_add_of_le (show tighter + 1 ≤ other by omega)
    exact yields more
  · intro other small isTighter
    by_cases isOwn : other = tighter
    · subst isOwn
      exact goesOnAt
    · obtain ⟨more, rfl⟩ := Nat.exists_eq_add_of_le (show tighter + 1 ≤ other by omega)
      exact (yields more).goesOnAt

/-! ## Literals -/

/-- The digits of a literal are split off. -/
theorem literal_digits
    {digits rest : Text}
    (areDigits : ∀ byte ∈ digits, Byte.isDigit byte = true)
    (ends : Ends rest)
    (done : Text) :
    literal (digits ++ rest) false done = (done.reverse ++ digits, false, rest) := by
  induction digits generalizing done with
  | nil =>
      cases rest with
      | nil =>
          simp [literal]
      | cons byte rest =>
          rcases ends byte rfl with rfl | rfl <;> simp <;> rfl
  | cons byte digits inductionHypothesis =>
      have isDigit := areDigits byte (by simp)
      have notDot : byte ≠ Byte.dot := by
        rintro rfl
        cases isDigit
      have step : literal (byte :: (digits ++ rest)) false done =
          literal (digits ++ rest) false (byte :: done) := by
        rw [literal.eq_def]
        split <;> simp_all
      rw [List.cons_append, step,
        inductionHypothesis (fun other member => areDigits other (by simp [member]))]
      simp

/-- A digit is neither a blank nor a sign nor a parenthesis. -/
theorem isDigit_facts
    {byte : UInt8}
    (isDigit : Byte.isDigit byte = true) :
    Byte.isSpace byte = false ∧ byte ≠ Byte.openParen ∧ byte ≠ Byte.minus ∧ byte ≠ Byte.plus ∧
      byte ≠ Byte.tilde ∧ byte ≠ Byte.bang := by
  revert byte
  apply Byte.of_codes
  decide +kernel

/-- A digit starts a literal. -/
theorem unary_digit
    {byte : UInt8}
    (isDigit : Byte.isDigit byte = true)
    (bound : Nat)
    (rest : Text) :
    unary (bound + 1) (byte :: rest) = element (byte :: rest) := by
  obtain ⟨notSpace, notParen, notMinus, notPlus, notTilde, notBang⟩ := isDigit_facts isDigit
  have stays : skipBlanks (byte :: rest) = byte :: rest :=
    List.dropWhile_cons_of_neg (by simp [notSpace])
  have unsigned : Sign.read? (byte :: rest) = none := by
    rw [Sign.read?.eq_def]
    split <;> simp_all
  rw [unary, stays, unsigned]
  simp only
  split
  · simp_all
  · rfl

/-- A literal is read up to its last digit. -/
theorem reads_literal
    (number : Fin Integer.limit) :
    (Tree.literal number).Reads := by
  apply Tree.reads_of_tightest
  intro bound count rest fits _
  obtain ⟨bound, rfl⟩ : ∃ fewer, bound = fewer + 1 :=
    ⟨bound - 1, by have := fits.deep; omega⟩
  obtain ⟨first, more, isText⟩ := List.exists_cons_of_ne_nil (Text.ofNat_ne_nil number.val)
  have digits := Text.ofNat_digits number.val
  have cut : literal (Text.ofNat number.val ++ rest) false [] =
      (Text.ofNat number.val, false, rest) :=
    literal_digits digits fits.ends []
  have isElement : element (Text.ofNat number.val ++ rest) =
      ⟨.ok (.int (Int64.ofInt number.val)), rest⟩ := by
    rw [element, cut, isText]
    simp only
    rw [← isText, Integer.read?_ofNat number.isLt]
  have isUnary : unary (bound + 1) (Text.ofNat number.val ++ rest) =
      ⟨.ok (.int (Int64.ofInt number.val)), rest⟩ := by
    rw [← isElement, isText]
    exact unary_digit (digits first (by simp [isText])) bound _
  rw [binary, Tree.print, isUnary]
  exact ⟨rfl, fun _ => rfl⟩

/-! ## Signs, groups and operators -/

/-- Parentheses where they are needed make a group. -/
def Tree.atLeast (least : Nat) (tree : Tree) : Tree :=
  if tree.level < least then .group tree else tree

/-- A group is printed in parentheses. -/
theorem Tree.print_atLeast
    (least : Nat)
    (tree : Tree) :
    (tree.atLeast least).print = enclose (tree.level < least) tree.print := by
  by_cases isLooser : tree.level < least <;> simp [atLeast, isLooser, print, enclose]

/-- A group has the value of its content. -/
theorem Tree.evaluate_atLeast
    (least : Nat)
    (tree : Tree) :
    (tree.atLeast least).evaluate = tree.evaluate := by
  rw [atLeast]
  split <;> rfl

/-- A group stands at every level. -/
theorem Tree.level_atLeast
    {least : Nat}
    (isLevel : least ≤ levels)
    (tree : Tree) :
    least ≤ (tree.atLeast least).level := by
  rw [atLeast]
  split
  · exact isLevel
  · omega

/-- A sign applies to what follows it. -/
theorem unary_sign
    (sign : Sign)
    (bound : Nat)
    (rest : Text) :
    unary (bound + 1) (sign.symbol :: rest) =
      match unary bound rest with
      | ⟨.ok operand, after⟩ => ⟨.ok (sign.apply operand), after⟩
      | faulty => faulty := by
  cases sign <;> rfl

/-- An operand that is a number is counted as it is. -/
theorem settle_of_numeric
    {reading : Reading}
    (numeric : reading.outcome ≠ .error .notNumeric) :
    settle reading = reading := by
  rw [settle]
  split
  · rename_i isFault
    exact absurd isFault numeric
  · rfl

/-- What a group in parentheses comes to, given what stands behind the opening one. -/
def closeGroup : Reading → Reading
  | ⟨.error fault, rest⟩ => ⟨.error fault, rest⟩
  | ⟨.ok value, rest⟩ =>
      match skipBlanks rest with
      | Byte.closeParen :: after => ⟨.ok value, after⟩
      | other => ⟨.error .missingParenthesis, other⟩

/-- A group is read up to its closing parenthesis. -/
theorem reads_group
    {inside : Tree}
    (reads : inside.Reads) :
    (Tree.group inside).Reads := by
  apply Tree.reads_of_tightest
  intro bound count rest fits _
  have deep := fits.deep
  simp only [Tree.print, enclose, if_true, List.cons_append, List.append_assoc, List.length_cons,
    List.length_append, List.length_nil] at deep
  obtain ⟨bound, rfl⟩ : ∃ fewer, bound = fewer + 1 := ⟨bound - 1, by omega⟩
  have isText : (Tree.group inside).print ++ rest =
      Byte.openParen :: (inside.print ++ Byte.closeParen :: rest) := by
    simp [Tree.print, enclose]
  have fitsInside : Fits inside bound (bound + 1) (Byte.closeParen :: rest) :=
    ⟨by simp only [List.length_append, List.length_cons]; omega, by omega,
      fun byte isHead => .inr (Option.some.inj isHead).symm⟩
  have yields := reads.yieldsAt (Nat.le_refl levels) (by omega) _ _ _ fitsInside
    (stops_closeParen _ rest)
  have isUnary : unary (bound + 1) (Byte.openParen :: (inside.print ++ Byte.closeParen :: rest)) =
      closeGroup (settle (binary (unary bound) (bound + 1) levels
        (inside.print ++ Byte.closeParen :: rest))) :=
    rfl
  rw [binary, isText, isUnary]
  obtain ⟨isOutcome, isRest⟩ := yields
  rw [settle_of_numeric (isOutcome ▸ inside.evaluate_ne_notNumeric), Tree.evaluate]
  generalize binary (unary bound) (bound + 1) levels (inside.print ++ Byte.closeParen :: rest) =
    reading at isOutcome isRest
  obtain ⟨found, after⟩ := reading
  generalize inside.evaluate = expected at isOutcome isRest
  subst isOutcome
  cases found with
  | error fault =>
      refine ⟨rfl, ?_⟩
      rintro ⟨_, isNumber⟩
      cases isNumber
  | ok value =>
      have closes : skipBlanks after = Byte.closeParen :: rest := isRest ⟨value, rfl⟩
      simp only [closeGroup, closes]
      exact ⟨rfl, fun _ => rfl⟩

/-- A sign is read with its operand. -/
theorem reads_signed
    (sign : Sign)
    {operand : Tree}
    (reads : (operand.atLeast levels).Reads) :
    (Tree.signed sign operand).Reads := by
  apply Tree.reads_of_tightest
  intro bound count rest fits stops
  have isText : (Tree.signed sign operand).print ++ rest =
      sign.symbol :: ((operand.atLeast levels).print ++ rest) := by
    rw [Tree.print, ← Tree.print_atLeast]
    rfl
  have deep := fits.deep
  rw [isText, List.length_cons] at deep
  obtain ⟨bound, rfl⟩ : ∃ fewer, bound = fewer + 1 := ⟨bound - 1, by omega⟩
  have yields := reads.yieldsAt (Nat.zero_le levels) (Tree.level_atLeast (Nat.le_refl _) operand)
    bound _ rest ⟨by omega, Nat.lt_succ_self _, fits.ends⟩ stops
  rw [binary] at yields
  rw [binary, isText, unary_sign, Tree.evaluate]
  rw [Tree.evaluate_atLeast] at yields
  obtain ⟨isOutcome, isRest⟩ := yields
  generalize unary bound ((operand.atLeast levels).print ++ rest) = reading at isOutcome isRest
  obtain ⟨found, after⟩ := reading
  generalize operand.evaluate = expected at isOutcome isRest
  subst isOutcome
  cases found with
  | error fault =>
      refine ⟨rfl, ?_⟩
      rintro ⟨_, isNumber⟩
      cases isNumber
  | ok value =>
      exact ⟨rfl, fun _ => isRest ⟨value, rfl⟩⟩

/-- An operator is read between its operands: the chain goes on behind the right one. -/
theorem reads_binary
    (operator : Operator)
    (isWhole : operator ≠ .divide)
    {left right : Tree}
    (leftReads : (left.atLeast operator.level).Reads)
    (rightReads : (right.atLeast (operator.level + 1)).Reads) :
    (Tree.binary operator isWhole left right).Reads := by
  have isLevel := operator.level_lt
  obtain ⟨tighter, isTighter⟩ : ∃ tighter, operator.level + (tighter + 1) = levels :=
    ⟨levels - operator.level - 1, by omega⟩
  apply Tree.reads_of_goesOnAt isTighter
  intro bound count rest fits stops
  have isText : (Tree.binary operator isWhole left right).print =
      (left.atLeast operator.level).print ++ Byte.space ::
        (operator.symbol ++ Byte.space :: (right.atLeast (operator.level + 1)).print) := by
    rw [Tree.print, Tree.print_atLeast, Tree.print_atLeast]
  have deep := fits.deep
  have long := fits.long
  have leftLevel := left.level_atLeast (Nat.le_of_lt isLevel)
  have rightLevel := right.level_atLeast isLevel
  rw [Tree.evaluate, ← left.evaluate_atLeast operator.level,
    ← right.evaluate_atLeast (operator.level + 1), isText]
  rw [isText] at deep long
  generalize left.atLeast operator.level = first at *
  generalize right.atLeast (operator.level + 1) = second at *
  simp only [List.length_append, List.length_cons] at deep long
  have fitsFirst : Fits first bound count
      (Byte.space :: (operator.symbol ++ Byte.space :: (second.print ++ rest))) :=
    ⟨by simp only [List.length_append, List.length_cons]; omega, by omega,
      fun byte isHead => .inl (Option.some.inj isHead).symm⟩
  have fitsSecond : Fits second bound count rest :=
    ⟨by simp only [List.length_append]; omega, by omega, fits.ends⟩
  have own : levels - (tighter + 1) = operator.level := by omega
  have next : levels - tighter = operator.level + 1 := by omega
  obtain ⟨remaining, enough, goesOn⟩ := leftReads.goesOnAt (by omega) (by omega) _ _ _ fitsFirst
    (next ▸ operator.stops _)
  have yields := rightReads.yieldsAt (by omega) (by omega) _ _ _ fitsSecond stops
  obtain ⟨bound, rfl⟩ : ∃ fewer, bound = fewer + 1 := ⟨bound - 1, by omega⟩
  obtain ⟨remaining, rfl⟩ : ∃ fewer, remaining = fewer + 1 := ⟨remaining - 1, by omega⟩
  rw [← binary_space] at yields
  rw [own] at goesOn ⊢
  refine ⟨remaining, by simp only [List.length_append, List.length_cons]; omega, ?_⟩
  simp only [List.append_assoc, List.cons_append]
  generalize first.evaluate = outcome at goesOn
  cases outcome with
  | error fault =>
      exact goesOn
  | ok value =>
      obtain ⟨after, same, isReading⟩ := goesOn
      rw [operator.skipBlanks_symbol] at same
      rw [isReading]
      exact chain_operator same yields

/-- What is read without parentheses is read in them. -/
theorem reads_atLeast
    (least : Nat)
    {tree : Tree}
    (reads : tree.Reads) :
    (tree.atLeast least).Reads := by
  rw [Tree.atLeast]
  split
  · exact reads_group reads
  · exact reads

/-- Every tree is read back. -/
theorem Tree.reads
    (tree : Tree) :
    tree.Reads := by
  induction tree with
  | literal number =>
      exact reads_literal number
  | signed sign operand inductionHypothesis =>
      exact reads_signed sign (reads_atLeast _ inductionHypothesis)
  | group inside inductionHypothesis =>
      exact reads_group inductionHypothesis
  | binary operator isWhole left right leftReads rightReads =>
      exact reads_binary operator isWhole (reads_atLeast _ leftReads) (reads_atLeast _ rightReads)

/-- Every tree has some text. -/
theorem Tree.print_ne_nil
    (tree : Tree) :
    tree.print ≠ [] := by
  cases tree with
  | literal number => exact Text.ofNat_ne_nil number.val
  | signed sign operand => exact List.cons_ne_nil _ _
  | group inside => exact List.cons_ne_nil _ _
  | binary operator isWhole left right => simp [print]

/-- Evaluating the text of a tree comes to what the tree comes to. -/
theorem evaluate_print
    (tree : Tree) :
    evaluate tree.print = tree.evaluate := by
  have fits : Fits tree (tree.print.length + 1) (tree.print.length + 1) [] :=
    ⟨by simp, Nat.lt_succ_self _, fun byte isHead => nomatch isHead⟩
  have yields := tree.reads.yieldsAt (Nat.le_refl levels) (by omega) _ _ _ fits (stops_nil _)
  rw [List.append_nil] at yields
  rw [evaluate, if_neg (by simpa using tree.print_ne_nil), read,
    settle_of_numeric (yields.1 ▸ tree.evaluate_ne_notNumeric)]
  exact yields.1

end LittleScript.Expression
