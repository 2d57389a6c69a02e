/-
GottaGo.Bloc.Purchases — `PurchasesBloc` (`lib/bloc/bloc/purchases/`) and the
parts of `lib/repository/purchases_repository.dart` that it awaits.

The repository turns a `PlatformException` of the plugin into `null`;
exceptions of other kinds pass. `restorePurchases` returns `null` also for
a customer without an active subscription or entitlement, and
`getSubscriptionStatus` only looks at what it is given.
-/
import GottaGo.Async.Bloc
import GottaGo.Repository.Purchases

namespace GottaGo

open GottaGo.Async

structure CustomerInfo where
  activeSubscriptions : List String := []
  /-- The identifiers of `entitlements.active`. -/
  activeEntitlements : List String := []
  allPurchasedProductIdentifiers : List String := []
  deriving DecidableEq, Repr

/-- Whether something the customer has bought is active. -/
def CustomerInfo.isActive (info : CustomerInfo) : Bool :=
  !info.activeSubscriptions.isEmpty || !info.activeEntitlements.isEmpty

structure Offerings where
  /-- The identifier of the current offering. -/
  current : Option String := none
  deriving DecidableEq, Repr

structure StoreProduct where
  identifier : String
  deriving DecidableEq, Repr

structure Package where
  identifier : String
  deriving DecidableEq, Repr

/-- The calls to the plugin about a customer. -/
inductive CustomerCall where
  | getCustomerInfo
  | purchasePackage (package : Package)
  | restorePurchases
  | getOfferings
  | getProducts (productIdentifiers : List String)
  deriving DecidableEq, Repr

/-- What they are answered with. -/
abbrev CustomerCall.Answer : CustomerCall → Type
  | .getCustomerInfo => CustomerInfo
  | .purchasePackage _ => CustomerInfo
  | .restorePurchases => CustomerInfo
  | .getOfferings => Offerings
  | .getProducts _ => List StoreProduct

/-- An asynchronous function that calls the plugin about a customer. -/
abbrev CustomerProg (α : Type) := Prog CustomerCall CustomerCall.Answer PurchasesErr α

namespace PurchasesRepository

/-- `try { t } on PlatformException catch (e) { …; return null; }`. -/
def nullOnPlatformException {α : Type} (t : CustomerProg (Option α)) :
    CustomerProg (Option α) :=
  t.tryCatch fun e => if e = .platformException then .ret none else .raise e

def getCustomerInfo : CustomerProg (Option CustomerInfo) :=
  nullOnPlatformException do
    let customerInfo ← Prog.await CustomerCall.getCustomerInfo
    return some customerInfo

def makePurchase (package : Package) : CustomerProg (Option CustomerInfo) :=
  nullOnPlatformException do
    let customerInfo ← Prog.await (CustomerCall.purchasePackage package)
    return some customerInfo

def restorePurchases : CustomerProg (Option CustomerInfo) :=
  nullOnPlatformException do
    let restoredInfo ← Prog.await CustomerCall.restorePurchases
    if restoredInfo.isActive then return some restoredInfo else return none

def getOfferings : CustomerProg (Option Offerings) :=
  nullOnPlatformException do
    let offerings ← Prog.await CustomerCall.getOfferings
    if offerings.current.isSome then return some offerings else return none

def getProducts (productIdentifiers : List String) : CustomerProg (Option (List StoreProduct)) :=
  nullOnPlatformException do
    let storeProducts ← Prog.await (CustomerCall.getProducts productIdentifiers)
    return some storeProducts

def getSubscriptionStatus (customerInfo : CustomerInfo) : Option Bool :=
  some customerInfo.isActive

end PurchasesRepository

inductive PurchasesState where
  | loading
  | loaded (offerings : Option Offerings) (isSubscribed : Option Bool)
      (customerInfo : CustomerInfo) (products : Option (List StoreProduct))
  | failed
  | updated
  deriving DecidableEq, Repr

inductive PurchasesEvent where
  | loadPurchases
  | addPurchase (package : Package)
  | restorePurchases
  deriving DecidableEq, Repr

namespace PurchasesBloc

open PurchasesRepository Handler

/-- An asynchronous function of the bloc. -/
abbrev PurchasesHandler (α : Type) :=
  Handler PurchasesState CustomerCall CustomerCall.Answer PurchasesErr α

/-- `customerInfo!`. -/
def bang : Option CustomerInfo → PurchasesHandler CustomerInfo
  | some customerInfo => .ret customerInfo
  | none => .raise .typeError

/-- What `LoadPurchases` fetches, and the state that shows it. -/
def fetch : PurchasesHandler Unit := do
  -- Check Revenue Cat for Subscription Status
  let customerInfo ← ofProg getCustomerInfo
  let customerInfo ← bang customerInfo
  wait
  let isSubscribed := getSubscriptionStatus customerInfo
  -- Fetch offerings & products
  let offerings ← ofProg getOfferings
  let products ← ofProg (getProducts customerInfo.allPurchasedProductIdentifiers)
  emit (.loaded offerings isSubscribed customerInfo products)

def onLoadPurchases : PurchasesHandler Unit := do
  let state ← Handler.state
  if state ≠ .loading then emit .loading
  fetch

/-- The handler, up to the `LoadPurchases` that it adds at its end. -/
def onAddPurchase (package : Package) : PurchasesHandler Unit := do
  emit .loading
  let customerInfo ← ofProg (makePurchase package)
  if customerInfo.isSome then emit .updated else emit .failed
  wait

/-- The handler, up to the `LoadPurchases` that it adds at its end. -/
def onRestorePurchases : PurchasesHandler Unit := do
  emit .loading
  let _ ← ofProg restorePurchases
  emit .updated

def handler : PurchasesEvent → PurchasesHandler Unit
  | .loadPurchases => onLoadPurchases
  | .addPurchase package => onAddPurchase package
  | .restorePurchases => onRestorePurchases

/-! ## The handlers alone -/

/-- What the repository returns for the answer `r` of the plugin. -/
def caught {α β : Type} (g : α → Option β) : Except PurchasesErr α → Except PurchasesErr (Option β)
  | .ok a => .ok (g a)
  | .error e => if e = .platformException then .ok none else .error e

@[simp] theorem caught_ok {α β : Type} (g : α → Option β) (a : α) :
    caught g (.ok a) = .ok (g a) := rfl

/-- A plugin call that the repository makes something of. -/
def Tolerated {α : Type} : Except PurchasesErr α → Prop
  | .ok _ => True
  | .error e => e = .platformException

theorem isOk_caught_iff {α β : Type} (g : α → Option β) (r : Except PurchasesErr α) :
    (caught g r).isOk ↔ Tolerated r := by
  cases r with
  | ok a => simp [caught, Tolerated, Except.isOk, Except.toBool]
  | error e =>
    by_cases he : e = .platformException <;>
      simp [caught, Tolerated, he, Except.isOk, Except.toBool]

variable {π : Nat → (c : CustomerCall) → Except PurchasesErr c.Answer}

/-- A repository call that makes one call to the plugin. -/
theorem eval_ofProg_caught {β : Type} {c : CustomerCall} {f : c.Answer → CustomerProg (Option β)}
    {g : c.Answer → Option β} (hf : ∀ a, f a = .ret (g a))
    (nb : Nat × Bloc PurchasesState CustomerCall) :
    Prog.eval (alone π) (ofProg (nullOnPlatformException (Prog.await c >>= f)) :
        PurchasesHandler (Option β)) nb =
      (caught g (π nb.1 c), nb.1 + 1, nb.2) := by
  show Prog.eval (alone π) (ofProg (Prog.tryCatch ((Prog.ofExcept (π nb.1 c)).bind f) _))
    (nb.1 + 1, nb.2) = _
  cases π nb.1 c with
  | ok a =>
    simp only [Prog.ofExcept, Prog.bind, hf]
    rfl
  | error e =>
    by_cases he : e = .platformException
    · subst he
      rfl
    · simp only [Prog.ofExcept, Prog.bind, Prog.tryCatch, caught, if_neg he]
      rfl

/-- What `getOfferings` makes of the answer. -/
def offered (offerings : Offerings) : Option Offerings :=
  if offerings.current.isSome then some offerings else none

/-- What `restorePurchases` makes of the answer. -/
def restored (restoredInfo : CustomerInfo) : Option CustomerInfo :=
  if restoredInfo.isActive then some restoredInfo else none

section Eval

variable (nb : Nat × Bloc PurchasesState CustomerCall)

theorem eval_getCustomerInfo :
    Prog.eval (alone π) (ofProg getCustomerInfo : PurchasesHandler _) nb =
      (caught some (π nb.1 .getCustomerInfo), nb.1 + 1, nb.2) :=
  eval_ofProg_caught (fun _ => rfl) nb

theorem eval_getOfferings :
    Prog.eval (alone π) (ofProg getOfferings : PurchasesHandler _) nb =
      (caught offered (π nb.1 .getOfferings), nb.1 + 1, nb.2) := by
  refine eval_ofProg_caught (fun offerings => ?_) nb
  unfold offered
  split <;> rfl

theorem eval_getProducts (productIdentifiers : List String) :
    Prog.eval (alone π) (ofProg (getProducts productIdentifiers) : PurchasesHandler _) nb =
      (caught some (π nb.1 (.getProducts productIdentifiers)), nb.1 + 1, nb.2) :=
  eval_ofProg_caught (fun _ => rfl) nb

theorem eval_restorePurchases :
    Prog.eval (alone π) (ofProg restorePurchases : PurchasesHandler _) nb =
      (caught restored (π nb.1 .restorePurchases), nb.1 + 1, nb.2) := by
  refine eval_ofProg_caught (fun restoredInfo => ?_) nb
  unfold restored
  split <;> rfl

end Eval

/-- Everything that `LoadPurchases` fetches comes. -/
def Fetched (π : Nat → (c : CustomerCall) → Except PurchasesErr c.Answer) : Prop :=
  ∃ info, π 0 .getCustomerInfo = .ok info ∧ Tolerated (π 1 .getOfferings) ∧
    Tolerated (π 2 (.getProducts info.allPurchasedProductIdentifiers))

/-- `fetch` emits a loaded state if everything comes, and else nothing. -/
theorem eval_fetch (b : Bloc PurchasesState CustomerCall) :
    (Fetched π ∧ ∃ offerings isSubscribed info products,
      (Prog.eval (alone π) fetch (0, b)).2.2 =
        b.emit (.loaded offerings isSubscribed info products)) ∨
    (¬ Fetched π ∧ (Prog.eval (alone π) fetch (0, b)).2.2 = b) := by
  simp only [fetch, Prog.bind_eq, Prog.eval_bind, eval_getCustomerInfo]
  rcases hinfo : π 0 .getCustomerInfo with e | info
  · right
    refine ⟨fun ⟨_, hok, _⟩ => ?_, ?_⟩
    · simp [hinfo] at hok
    · by_cases he : e = .platformException <;> simp [caught, he, bang]
  rw [caught_ok]
  simp only [bang, Prog.eval_ret, eval_wait, eval_getOfferings, eval_getProducts,
    Nat.zero_add, Nat.reduceAdd]
  have hfetched : Fetched π ↔ Tolerated (π 1 .getOfferings) ∧
      Tolerated (π 2 (.getProducts info.allPurchasedProductIdentifiers)) := by
    constructor
    · rintro ⟨info', hok, h⟩
      rw [hinfo] at hok
      cases hok
      exact h
    · exact fun h => ⟨info, hinfo, h⟩
  rw [hfetched, ← isOk_caught_iff offered, ← isOk_caught_iff some]
  rcases caught offered (π 1 .getOfferings) with e | offerings
  · exact .inr ⟨by simp [Except.isOk, Except.toBool], rfl⟩
  dsimp only
  rcases caught some (π 2 (.getProducts info.allPurchasedProductIdentifiers)) with e | products
  · exact .inr ⟨by simp [Except.isOk, Except.toBool], rfl⟩
  · exact .inl ⟨⟨rfl, rfl⟩, offerings, getSubscriptionStatus info, info, products, by simp⟩

/-! ## Responses in any order -/

/-- The state that carries the responses to load number `i`. -/
def responseTo (resp : Nat → (c : CustomerCall) → c.Answer) (i : Nat) (_ : Unit) :
    PurchasesState :=
  let customerInfo := resp i .getCustomerInfo
  let offerings := resp i .getOfferings
  .loaded (if offerings.current.isSome then some offerings else none)
    (getSubscriptionStatus customerInfo) customerInfo
    (some (resp i (.getProducts customerInfo.allPurchasedProductIdentifiers)))

theorem delivers_fetch (resp : Nat → (c : CustomerCall) → c.Answer) (i : Nat) :
    fetch.Delivers (resp i) (responseTo resp i ()) := by
  unfold responseTo
  -- the handler at the offerings it has been told of
  show Handler.Delivers _ _ ((ofProg (Prog.tryCatch
    (if (resp i .getOfferings).current.isSome then Prog.ret (some (resp i .getOfferings))
      else Prog.ret none) _)).bind _)
  by_cases ho : (resp i .getOfferings).current.isSome
  · simp only [if_pos ho]
    exact .inr ⟨rfl, rfl⟩
  · simp only [if_neg ho]
    exact .inr ⟨rfl, rfl⟩

/-- The handler of the event `LoadPurchases`, which carries nothing. -/
def onLoad (_ : Unit) : PurchasesHandler Unit := onLoadPurchases

theorem delivers_onLoad (resp : Nat → (c : CustomerCall) → c.Answer) (i : Nat)
    (event : Unit) : (onLoad event).Delivers (resp i) (responseTo resp i event) := by
  intro s
  cases s with
  | loading => exact delivers_fetch resp i
  | _ => exact .inl (delivers_fetch resp i)

end PurchasesBloc

end GottaGo
