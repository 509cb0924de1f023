/-!
# Operators

The operators of the query language form a closed set. Each has a name, an arity and exactly one
role: it combines conditions, compares a field with a value, shapes the result, or aggregates.
-/

namespace ResourceQuery
set_option autoImplicit false

/-- What an operator is for. -/
inductive Role
  | boolean
  | comparison
  | directive
  | aggregate
deriving DecidableEq, Repr

/-- How many arguments an operator takes. -/
inductive Arity
  | exactly (count : Nat)
  | atLeast (count : Nat)
  | between (low high : Nat)
deriving DecidableEq, Repr

namespace Arity

/-- The arity admits this number of arguments. -/
def admits : Arity → Nat → Bool
  | .exactly count, n => n == count
  | .atLeast count, n => decide (count ≤ n)
  | .between low high, n => decide (low ≤ n) && decide (n ≤ high)

/-- The arity in words. -/
def words : Arity → String
  | .exactly 0 => "no arguments"
  | .exactly 1 => "exactly 1 argument"
  | .exactly count => s!"exactly {count} arguments"
  | .atLeast 1 => "at least 1 argument"
  | .atLeast count => s!"at least {count} arguments"
  | .between low high => s!"between {low} and {high} arguments"

end Arity

/-- The operators of the query language. -/
inductive Operator
  | and
  | or
  | not
  | eq
  | ne
  | lt
  | le
  | gt
  | ge
  | in
  | contains
  | excludes
  | sort
  | select
  | values
  | limit
  | distinct
  | aggregate
  | sum
  | mean
  | max
  | min
  | count
deriving DecidableEq, Repr

namespace Operator

/-- All operators, by role. -/
def all : List Operator :=
  [.and, .or, .not,
   .eq, .ne, .lt, .le, .gt, .ge, .in, .contains, .excludes,
   .sort, .select, .values, .limit, .distinct, .aggregate,
   .sum, .mean, .max, .min, .count]

/-- The name of an operator in a query. -/
def name : Operator → String
  | .and => "and"
  | .or => "or"
  | .not => "not"
  | .eq => "eq"
  | .ne => "ne"
  | .lt => "lt"
  | .le => "le"
  | .gt => "gt"
  | .ge => "ge"
  | .in => "in"
  | .contains => "contains"
  | .excludes => "excludes"
  | .sort => "sort"
  | .select => "select"
  | .values => "values"
  | .limit => "limit"
  | .distinct => "distinct"
  | .aggregate => "aggregate"
  | .sum => "sum"
  | .mean => "mean"
  | .max => "max"
  | .min => "min"
  | .count => "count"

/-- The operator with this name. Names are case-sensitive. -/
def ofName? (name : String) : Option Operator :=
  all.find? fun op => op.name == name

/-- How many arguments the operator takes. -/
def arity : Operator → Arity
  | .and | .or => .atLeast 1
  | .not => .exactly 1
  | .eq | .ne | .lt | .le | .gt | .ge | .in | .contains | .excludes => .exactly 2
  | .sort | .select | .values | .aggregate => .atLeast 1
  | .limit => .between 1 2
  | .distinct | .count => .exactly 0
  | .sum | .mean | .max | .min => .exactly 1

/-- What the operator is for. -/
def role : Operator → Role
  | .and | .or | .not => .boolean
  | .eq | .ne | .lt | .le | .gt | .ge | .in | .contains | .excludes => .comparison
  | .sort | .select | .values | .limit | .distinct | .aggregate => .directive
  | .sum | .mean | .max | .min | .count => .aggregate

/-- The comparison takes a list of values. -/
def takesList : Operator → Bool
  | .in | .contains | .excludes => true
  | _ => false

theorem mem_all (op : Operator) : op ∈ all := by
  cases op <;> decide

/-- An operator is found by its name. -/
@[simp] theorem ofName?_name (op : Operator) : ofName? op.name = some op := by
  cases op <;> decide

end Operator

/-- The direction of a sort key. -/
inductive Direction
  | ascending
  | descending
deriving DecidableEq, Repr

/-- The sign that stands for a direction. -/
def Direction.sign : Direction → Char
  | .ascending => '+'
  | .descending => '-'

end ResourceQuery
