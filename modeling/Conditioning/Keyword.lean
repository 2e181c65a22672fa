/-!
# Keywords

A block of a script starts with a keyword.  Four of them state the experiment;
the others say what to show of it.  The plot and export keywords come once for
each quantity that can be asked for.
-/

namespace Conditioning

/-- What a query asks for. -/
inductive Quantity where
  /-- An associative weight between an element and a behavior. -/
  | v
  | w
  | p
  | n
deriving DecidableEq, Repr

/-- The letter of a quantity. -/
def Quantity.name : Quantity → String
  | .v => "v"
  | .w => "w"
  | .p => "p"
  | .n => "n"

/-- The keywords of a script. -/
inductive Keyword where
  | comment
  /-- Settings of the runs that follow. -/
  | parameters
  | phase
  | run
  | figure
  | subplot
  | legend
  | plot (quantity : Quantity)
  | save (quantity : Quantity)
deriving DecidableEq, Repr

namespace Keyword

/-- The word of a keyword. -/
def name : Keyword → String
  | comment => "@comment"
  | parameters => "@parameters"
  | phase => "@phase"
  | run => "@run"
  | figure => "@figure"
  | subplot => "@subplot"
  | legend => "@legend"
  | plot quantity => "@" ++ quantity.name ++ "plot"
  | save quantity => "@" ++ quantity.name ++ "export"

/-- All keywords. -/
def all : List Keyword :=
  [comment, parameters, phase, run, figure, subplot, legend,
    plot .v, plot .w, plot .p, plot .n, save .v, save .w, save .p, save .n]

/-- The keyword of a word, the letter case included. -/
def ofWord? (word : String) : Option Keyword :=
  all.find? fun keyword => keyword.name == word

theorem mem_all (keyword : Keyword) : keyword ∈ all := by
  cases keyword with
  | plot quantity => cases quantity <;> decide
  | save quantity => cases quantity <;> decide
  | _ => decide

theorem name_of_ofWord? {word : String} {keyword : Keyword} (h : ofWord? word = some keyword) :
    keyword.name = word := by
  have := List.find?_some h
  simpa using this

end Keyword

end Conditioning
