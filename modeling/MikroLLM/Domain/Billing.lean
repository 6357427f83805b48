import Mathlib.Algebra.Group.Int.Defs
import Mathlib.Algebra.Group.Prod
import Mathlib.Algebra.Group.PUnit

/-!
# Requests and their cost

The columns of `request_log` and the sums that `billing_hour` holds. Costs are
elements of any type that can be added; in the source they are floating-point
numbers, whose sum depends on the order of addition.
-/

namespace MikroLLM.Domain

universe u

variable {Cost : Type u}

/-- What one answered request used. -/
structure TokenUsage (Cost : Type u) where
  promptTokens : ℤ
  completionTokens : ℤ
  cachedTokens : ℤ
  cacheWriteTokens : ℤ
  upstream : String
  promptUSD : Cost
  cacheDiscount : Cost
  hasDiscount : Bool
  cost : Cost
  hasCost : Bool
  savedUSD : Cost
  hasSaved : Bool

/-- The columns of one row of `request_log`, but for its identifier. -/
structure RequestLog (Cost : Type u) where
  ts : ℤ
  keyPrefix : String
  model : String
  backend : String
  status : ℤ
  latencyMS : ℤ
  bytesOut : ℤ
  promptTokens : ℤ
  completionTokens : ℤ
  cachedTokens : ℤ
  cacheWriteTokens : ℤ
  upstream : String
  promptUSD : Cost
  cacheDiscount : Cost
  usageCost : Cost
  savedUSD : Cost

/-- The sums that a `BillingHour`, a `BillingBucket` and a `BillingView` have in common. -/
@[ext]
structure BillingSums (Cost : Type u) where
  n : ℤ
  promptTokens : ℤ
  completionTokens : ℤ
  cachedTokens : ℤ
  usageCost : Cost
  savedUSD : Cost

namespace BillingSums

instance [Add Cost] : Add (BillingSums Cost) where
  add left right :=
    { n := left.n + right.n
      promptTokens := left.promptTokens + right.promptTokens
      completionTokens := left.completionTokens + right.completionTokens
      cachedTokens := left.cachedTokens + right.cachedTokens
      usageCost := left.usageCost + right.usageCost
      savedUSD := left.savedUSD + right.savedUSD }

instance [Zero Cost] : Zero (BillingSums Cost) where
  zero := ⟨0, 0, 0, 0, 0, 0⟩

/-- The sums, column by column. -/
def columns (sums : BillingSums Cost) : ((ℤ × ℤ) × (ℤ × ℤ)) × (Cost × Cost) :=
  (((sums.n, sums.promptTokens), (sums.completionTokens, sums.cachedTokens)),
    (sums.usageCost, sums.savedUSD))

theorem columns_injective : Function.Injective (@columns Cost) := by
  intro left right same
  simp only [columns, Prod.mk.injEq] at same
  rcases same with ⟨⟨⟨n, prompt⟩, completion, cached⟩, cost, saved⟩
  ext1 <;> assumption

instance [AddZeroClass Cost] : AddZeroClass (BillingSums Cost) where
  zero_add sums := columns_injective (zero_add sums.columns)
  add_zero sums := columns_injective (add_zero sums.columns)

instance [AddCommMonoid Cost] : AddCommMonoid (BillingSums Cost) where
  zero_add sums := columns_injective (zero_add sums.columns)
  add_zero sums := columns_injective (add_zero sums.columns)
  add_assoc left middle right :=
    columns_injective (add_assoc left.columns middle.columns right.columns)
  add_comm left right := columns_injective (add_comm left.columns right.columns)
  nsmul := nsmulRec

/-- The sums without the costs. -/
def counts (sums : BillingSums Cost) : BillingSums Unit where
  n := sums.n
  promptTokens := sums.promptTokens
  completionTokens := sums.completionTokens
  cachedTokens := sums.cachedTokens
  usageCost := ()
  savedUSD := ()

theorem counts_add [Add Cost] (left right : BillingSums Cost) :
    (left + right).counts = left.counts + right.counts := rfl

theorem counts_zero [Zero Cost] : (0 : BillingSums Cost).counts = 0 := rfl

end BillingSums

namespace RequestLog

/-- What one request adds to a row of `billing_hour`. -/
def sums (request : RequestLog Cost) : BillingSums Cost where
  n := 1
  promptTokens := request.promptTokens
  completionTokens := request.completionTokens
  cachedTokens := request.cachedTokens
  usageCost := request.usageCost
  savedUSD := request.savedUSD

end RequestLog

end MikroLLM.Domain
