import Conditioning.Text.Lowercase

/-!
# Learning rules

There are five learning rules.  Two of them keep, besides the weights between
elements and behaviors, a salience for each element.  A rule is looked up by
its name or a short name, whatever the case of its letters.
-/

namespace Conditioning

/-- The learning rules. -/
inductive Rule where
  /-- Rescorla-Wagner: the error of the utility alone. -/
  | rescorlaWagner
  /-- Q-learning: the best future value is added. -/
  | qLearning
  /-- Expected SARSA: the future value expected from the responses is added. -/
  | expectedSarsa
  /-- Actor-critic: the error of the saliences moves both tables. -/
  | actorCritic
  /-- Enquist: weights and saliences have an error each. -/
  | enquist
deriving DecidableEq, Repr

namespace Rule

/-- The names and short names, in small letters. -/
def ofLowerName? (name : String) : Option Rule :=
  if name = "rescorla_wagner" then some rescorlaWagner
  else if name = "q_learning" ∨ name = "qlearning" then some qLearning
  else if name = "expected_sarsa" ∨ name = "sarsa" then some expectedSarsa
  else if name = "actor_critic" then some actorCritic
  else if name = "enquist" ∨ name = "ga" then some enquist
  else none

/-- The rule of a name. -/
def ofName? (name : String) : Option Rule := ofLowerName? (Text.lowercase name)

/-- The name of a rule. -/
def name : Rule → String
  | rescorlaWagner => "rescorla_wagner"
  | qLearning => "q_learning"
  | expectedSarsa => "expected_sarsa"
  | actorCritic => "actor_critic"
  | enquist => "enquist"

/-- Whether a rule keeps saliences. -/
def hasSalience : Rule → Bool
  | actorCritic => true
  | enquist => true
  | _ => false

theorem ofLowerName?_name (rule : Rule) : ofLowerName? rule.name = some rule := by
  cases rule <;> decide

end Rule

end Conditioning
