/-
  ExprMachine.Proofs.Expr.Induction

  Induction over expression trees. The expressions of an argument list or of a list
  literal are reached through membership, so that no proof has to recurse over trees
  and lists of trees at once.
-/
import ExprMachine.Expr.Basic

namespace ExprMachine.Expr

/-- What holds of every expression whose parts have it holds of all expressions. -/
@[elab_as_elim, induction_eliminator]
theorem inductionOn {motive : Expr → Prop}
    (unary : ∀ operator operand, motive operand → motive (.unary operator operand))
    (binary : ∀ operator left right, motive left → motive right →
      motive (.binary operator left right))
    (methodCall : ∀ receiver name arguments, motive receiver →
      (∀ argument ∈ arguments, motive argument) → motive (.methodCall receiver name arguments))
    (call : ∀ name arguments, (∀ argument ∈ arguments, motive argument) →
      motive (.call name arguments))
    (property : ∀ receiver name, motive receiver → motive (.property receiver name))
    (identifier : ∀ name, motive (.identifier name))
    (bool : ∀ value, motive (.bool value))
    (nil : motive .nil)
    (float : ∀ value, motive (.float value))
    (int : ∀ value, motive (.int value))
    (text : ∀ value, motive (.text value))
    (list : ∀ items, (∀ item ∈ items, motive item) → motive (.list items))
    (expr : Expr) : motive expr := by
  refine @Expr.rec motive (fun exprs => ∀ expr ∈ exprs, motive expr) unary binary methodCall
    call property identifier bool nil float int text list ?_ ?_ expr
  · exact fun _ h => nomatch h
  · intro first others hfirst hothers expr h
    rcases List.mem_cons.1 h with rfl | h
    · exact hfirst
    · exact hothers expr h

end ExprMachine.Expr
