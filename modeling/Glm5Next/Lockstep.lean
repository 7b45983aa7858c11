import Mathlib.Logic.Basic

-- Two machines read the same inputs and report one output a step. A relation
-- between their states that every allowed input keeps keeps them in step: no
-- allowed run stops, and both report the same.
namespace Lockstep
variable {In Out State One Two Book : Type}

def trace (step : State → In → Option (State × Out)) : State → List In → Option (State × List Out)
  | s,[] => some (s,[])
  | s,input :: rest => do
    let (s,out) ← step s input
    let (s,outs) ← trace step s rest
    return (s,out :: outs)

-- Which inputs may come next, by a record of the earlier ones.
structure Rules (Book In : Type) where
  Allowed : Book → In → Prop
  next : Book → In → Book

def Rules.AllowedAll (rules : Rules Book In) : Book → List In → Prop
  | _,[] => True
  | book,input :: rest => rules.Allowed book input ∧ rules.AllowedAll (rules.next book input) rest

def Agree (rules : Rules Book In) (one : One → In → Option (One × Out)) (two : Two → In → Option (Two × Out))
    (related : Book → One → Two → Prop) : Prop :=
  ∀ book s t input, related book s t → rules.Allowed book input →
    ∃ s' t' out, one s input = some (s',out) ∧ two t input = some (t',out) ∧ related (rules.next book input) s' t'

theorem traces_agree {rules : Rules Book In} {one : One → In → Option (One × Out)} {two : Two → In → Option (Two × Out)}
    {related : Book → One → Two → Prop} (agree : Agree rules one two related) (inputs : List In)
    (start : related book s t) (allowed : rules.AllowedAll book inputs) :
    ∃ s' t' outs, trace one s inputs = some (s',outs) ∧ trace two t inputs = some (t',outs) ∧
      related (inputs.foldl rules.next book) s' t' := by
  induction inputs generalizing book s t with
  | nil => exact ⟨s,t,[],rfl,rfl,start⟩
  | cons input rest ih =>
      obtain ⟨first,allowed⟩ := allowed
      obtain ⟨s',t',out,stepped,followed,kept⟩ := agree book s t input start first
      obtain ⟨s'',t'',outs,later,after,kept⟩ := ih kept allowed
      refine ⟨s'',t'',out :: outs,?_,?_,kept⟩
      · simp only [trace,stepped,Option.bind_eq_bind,Option.bind_some,later]
        rfl
      · simp only [trace,followed,Option.bind_eq_bind,Option.bind_some,after]
        rfl

end Lockstep
