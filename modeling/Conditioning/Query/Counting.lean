import Conditioning.Experiment
import Conditioning.Query.Pattern

/-!
# Counting occurrences

A history is read as a row of tokens: a stimulus, the response to it, the next
stimulus, and so on.  A resolved pattern is a list of items that must meet
tokens in direct succession.  An occurrence is counted at the step whose
stimulus or response is its first token.
-/

namespace Conditioning

/-- One item of a resolved pattern. -/
inductive Item where
  | elements (wanted : List ElementId)
  | behavior (wanted : BehaviorId)
deriving DecidableEq, Repr

/-- One event of a history. -/
inductive Token where
  | shown (stimulus : Stimulus)
  | done (behavior : BehaviorId)
deriving DecidableEq, Repr

/-! ## Resolving names -/

namespace Pattern

/-- The item of a name. -/
def nameItem (vocabulary : Vocabulary) (text : String) : Except Error Item :=
  match vocabulary.element? text, vocabulary.behavior? text with
  | some element, _ => .ok (.elements [element])
  | none, some behavior => .ok (.behavior behavior)
  | none, none => .error (.unanswerable (.unknownName text))

/-- The element of a name. -/
def queryElement (vocabulary : Vocabulary) (text : String) : Except Error ElementId :=
  match vocabulary.element? text with
  | some element => .ok element
  | none => .error (.unanswerable (.unknownElement text))

/-- The item of a compound. -/
def compoundItem (vocabulary : Vocabulary) (names : List String) : Except Error Item :=
  (names.mapM (queryElement vocabulary)).map Item.elements

/-- The item of a member of a sequence. -/
def memberItem (vocabulary : Vocabulary) (pattern : Pattern) : Except Error Item :=
  match pattern with
  | .name text => nameItem vocabulary text
  | .compound names => compoundItem vocabulary names
  | .sequence _ => .error (.unanswerable .nestedPattern)

/-- The items of a pattern. -/
def resolve (vocabulary : Vocabulary) (pattern : Pattern) : Except Error (List Item) :=
  match pattern with
  | .sequence items => items.mapM (memberItem vocabulary)
  | _ => (memberItem vocabulary pattern).map fun item => [item]

end Pattern

/-! ## Matching -/

/-- Whether an item meets a token.  A stimulus may show more than the item asks for, unless the
match has to be exact. -/
def Item.meets (exact : Bool) (item : Item) (token : Token) : Bool :=
  match item, token with
  | .elements wanted, .shown stimulus =>
    wanted.all stimulus.contains && (!exact || stimulus.elements.all wanted.contains)
  | .behavior wanted, .done response => wanted == response
  | _, _ => false

/-- Whether items meet the tokens at the front. -/
def meetsFront (exact : Bool) : List Item → List Token → Bool
  | [], _ => true
  | _ :: _, [] => false
  | item :: items, token :: tokens => item.meets exact token && meetsFront exact items tokens

/-- The tokens of a history. -/
def tokens : List HistoryEntry → List Token
  | [] => []
  | entry :: entries => .shown entry.stimulus :: .done entry.response :: tokens entries

/-- For each place of a row of tokens, its end included, one if the items meet it and else
zero. -/
def hits (exact : Bool) (items : List Item) : List Token → List Nat
  | [] => [if meetsFront exact items [] then 1 else 0]
  | token :: tokens =>
    (if meetsFront exact items (token :: tokens) then 1 else 0) :: hits exact items tokens

/-- The sums of neighbouring places. -/
def pairSums : List Nat → List Nat
  | [] => []
  | [x] => [x]
  | x :: y :: rest => (x + y) :: pairSums rest

/-- A list of `n` counts: what is missing is zero, what is too much is left out. -/
def resize (n : Nat) (counts : List Nat) : List Nat :=
  (counts ++ List.replicate (n - counts.length) 0).take n

/-- The number of occurrences that start at each step; none starts at step zero. -/
def stepCounts (exact : Bool) (items : List Item) (record : Record) : List Nat :=
  resize record.stepCount (0 :: pairSums (hits exact items (tokens record.history.toList)))

/-! ## Counts over steps -/

/-- The sum of the counts at the steps from `start` to `stop`. -/
def spanSum (counts : Array Nat) (start stop : Nat) : Nat :=
  (List.range' start (stop + 1 - start)).foldl (fun sum k => sum + counts.getD k 0) 0

/-- The counts at selected steps.  If the steps are samples, each stands for the steps since the
sample before; `start` is the first such step and `total` the sum so far. -/
def accumulate (counts : Array Nat) (sampled cumulative : Bool) (start total : Nat) :
    List Nat → List Nat
  | [] => []
  | k :: steps =>
    let span := if sampled then spanSum counts start k else counts.getD k 0
    (if cumulative then total + span else span) ::
      accumulate counts sampled cumulative (k + 1) (total + span) steps

/-- A count for each occurrence of a reference; without occurrences the count itself. -/
def ratio (count reference : Nat) : Float :=
  if reference = 0 then count.toFloat else count.toFloat / reference.toFloat

@[simp] theorem length_resize (n : Nat) (counts : List Nat) : (resize n counts).length = n := by
  simp only [resize, List.length_take, List.length_append, List.length_replicate]
  omega

theorem length_hits (exact : Bool) (items : List Item) (tokens : List Token) :
    (hits exact items tokens).length = tokens.length + 1 := by
  induction tokens with
  | nil => rfl
  | cons token tokens ih => simp [hits, ih]

theorem length_accumulate (counts : Array Nat) (sampled cumulative : Bool) (start total : Nat)
    (steps : List Nat) :
    (accumulate counts sampled cumulative start total steps).length = steps.length := by
  induction steps generalizing start total with
  | nil => rfl
  | cons k steps ih => simp [accumulate, ih]

end Conditioning
