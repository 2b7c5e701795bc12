/-!
Index searches in an ascending array of sizes.

Both searches bisect for the boundary of an initial segment: `firstAtLeast` passes the
elements below a value and stops at the first one that is not, `lastAtMost` passes the
elements at most a value and stops at the last of them. Of equal elements `firstAtLeast`
names the first and `lastAtMost` the last. On an array that is not ascending the answer
is some index, and nothing more is promised. -/
namespace EdgePlacement.Size

/-- The end of the initial segment of `xs` on which `p` holds, sought between `lo` and
`hi`: everything before `lo` is known to satisfy `p` and nothing from `hi` on does. -/
def boundary (xs : Array UInt64) (p : UInt64 → Bool) (lo hi : Nat) : Nat :=
  if lo < hi then
    let mid := lo + (hi - lo) / 2
    if xs[mid]?.any p then boundary xs p (mid + 1) hi else boundary xs p lo mid
  else lo
termination_by hi - lo
decreasing_by all_goals omega

/-- The least index whose element is at least `value`, or the length if there is none. -/
def firstAtLeast (sorted : Array UInt64) (value : UInt64) : Nat :=
  boundary sorted (· < value) 0 sorted.size

/-- The greatest index whose element is at most `value`. -/
def lastAtMost (sorted : Array UInt64) (value : UInt64) : Option Nat :=
  match boundary sorted (· ≤ value) 0 sorted.size with
  | 0 => none
  | n + 1 => some n

end EdgePlacement.Size
