/-!
# Random draws

Where random draws come from is left open.  A source is a generator in one of its states, and all
that is known of it is that a draw below a positive bound gives a number below that bound.  Which
source a seed starts is a parameter of everything that is built on draws (`Generator`), so what is
proved about random orders holds of every generator, whatever it yields.
-/

namespace LiveQuery.Draw

/-- A source of random draws: a generator, and the number of the state that it is in. -/
structure Source where
  /-- The number that is drawn in a state below a bound, and the next state. -/
  draw : Nat → Nat → Nat × Nat
  state : Nat
  draw_lt : ∀ state bound, 0 < bound → (draw state bound).1 < bound

/-- The sources that seeds start. -/
class Generator where
  ofSeed : UInt64 → Source

namespace Source

/-- A random number below a positive bound, and the source afterwards. -/
def below (bound : Nat) (source : Source) : Nat × Source :=
  let (number, state) := source.draw source.state bound
  (number, { source with state })

/-- A draw stays below its bound. -/
theorem below_lt {bound : Nat} (positive : 0 < bound) (source : Source) :
    (below bound source).1 < bound :=
  source.draw_lt source.state bound positive

/-- The source that draws the same number each time, as far as the bound admits it. -/
def constantly (number : Nat) : Source where
  draw state bound := (if number < bound then number else 0, state)
  state := 0
  draw_lt _ bound positive := by
    dsimp only
    split <;> assumption

/-- Some source yields any given number below the bound. -/
theorem below_constantly {number bound : Nat} (admitted : number < bound) :
    (below bound (constantly number)).1 = number :=
  if_pos admitted

end Source
end LiveQuery.Draw
