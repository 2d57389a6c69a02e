/-
GottaGo.Repository.Purchases — the parts of
`lib/repository/purchases_repository.dart` that `AuthBloc` awaits.

`Purchases` is the RevenueCat plugin: a call to it is answered by a value
or by an exception, and what it does is not modelled. The handlers of a
`PlatformException` show a snack bar, which is left out here, and then
return `null` or throw an `Exception`. One whose code cannot be read is
thrown on by its own handler, like any exception of another kind.
-/
import GottaGo.Async.Prog

namespace GottaGo

open GottaGo.Async

/-- The calls to the plugin. -/
inductive Purchases where
  | isAnonymous
  | logIn (userId : String)
  | logOut
  deriving DecidableEq, Repr

/-- What they are answered with. -/
abbrev Purchases.Answer : Purchases → Type
  | .isAnonymous => Bool
  | .logIn _ => Unit
  | .logOut => Unit

/-- What may be thrown. -/
inductive PurchasesErr where
  | platformException
  | exception
  | typeError
  | other
  deriving DecidableEq, Repr

/-- An asynchronous function that calls the plugin. -/
abbrev RevCat (α : Type) := Prog Purchases Purchases.Answer PurchasesErr α

/-- How the plugin answers. -/
abbrev RevCatAnswer := (q : Purchases) → Except PurchasesErr q.Answer

namespace PurchasesRepository

/-- `try { t } on PlatformException catch (e) { h }`. -/
def onPlatformException {α : Type} (t h : RevCat α) : RevCat α :=
  t.tryCatch fun e => if e = .platformException then h else .raise e

def isUserAnonymous : RevCat (Option Bool) :=
  onPlatformException (do return some (← Prog.await Purchases.isAnonymous)) (.ret none)

def logoutOfRevCat : RevCat Unit :=
  onPlatformException (Prog.await Purchases.logOut) (.raise .exception)

def loginToRevCat (userId : String) : RevCat Unit :=
  onPlatformException (Prog.await (Purchases.logIn userId)) (.raise .exception)

end PurchasesRepository

end GottaGo
