import LinProg.Spec.Options

namespace LinProg

structure Term (α : Type) where
  name : String
  coef : α

structure Objective (α : Type) where
  direction : Direction
  terms : List (Term α)

/-- A bound type with two sides; those that it does not use are kept and have no effect. -/
structure Bounds (α : Type) where
  type : BoundType
  lower : Extended α
  upper : Extended α

structure ConstraintSpec (α : Type) where
  name : String
  terms : List (Term α)
  bounds : Bounds α

structure ColumnBoundSpec (α : Type) where
  name : String
  bounds : Bounds α

structure ProblemSpec (α : Type) where
  name : String
  objective : Objective α
  subjectTo : List (ConstraintSpec α)
  bounds : List (ColumnBoundSpec α)
  generals : List String
  binaries : List String
  options : Options α

end LinProg
