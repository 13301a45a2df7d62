namespace Holdall

inductive Bound (K : Type)
  | unbounded
  | included (k : K)
  | excluded (k : K)
  deriving DecidableEq, Repr

namespace Bound

variable {K : Type} [Ord K]

/-- Whether a range that begins here has begun at `k`. -/
def opens (k : K) : Bound K → Bool
  | unbounded => true
  | included lower => (compare k lower).isGE
  | excluded lower => compare k lower == .gt

/-- Whether a range that ends here has not ended before `k`. -/
def closes (k : K) : Bound K → Bool
  | unbounded => true
  | included upper => (compare k upper).isLE
  | excluded upper => compare k upper == .lt

/-- Whether a range can begin and end so: not above its end, and not by leaving out the one key that
there is between its bounds. -/
def spans : Bound K → Bound K → Bool
  | excluded lower, excluded upper => compare lower upper == .lt
  | included lower, included upper | included lower, excluded upper
  | excluded lower, included upper => compare lower upper != .gt
  | _, _ => true

theorem spans_excluded_iff {lower upper : K} :
    (included lower).spans (excluded upper) = true ↔ compare lower upper ≠ .gt := bne_iff_ne

end Bound

end Holdall
