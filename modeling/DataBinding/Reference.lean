/-!
References. Everything that is shared lives in an arena and is referred to by its place there; the
places of different kinds of things are different types.
-/
namespace DataBinding

/-- A reference to an object. -/
structure ObjectId where
  index : Nat
  deriving DecidableEq, Inhabited

/-- A reference to the list of subscribers that depend on one property. -/
structure DepId where
  index : Nat
  deriving DecidableEq, Inhabited

/-- A reference to a node of a page. -/
structure NodeId where
  index : Nat
  deriving DecidableEq, Inhabited

/-- A reference to something that is told about changes. -/
structure SubscriberId where
  index : Nat
  deriving DecidableEq, Inhabited

/-- A reference to a callback of the host program. -/
structure CallbackId where
  index : Nat
  deriving DecidableEq, Inhabited

/-- A reference to a binder. -/
structure BinderId where
  index : Nat
  deriving DecidableEq, Inhabited

/-- A reference to a bundle of watchers. -/
structure BundleId where
  index : Nat
  deriving DecidableEq, Inhabited

/-- A reference to a view model. -/
structure ViewModelId where
  index : Nat
  deriving DecidableEq, Inhabited

end DataBinding
