/-!
# Scores

A case of `n` bytes that was compressed to `c` bytes scores `1000 * 2n / (n + c)` in binary64
arithmetic: 1000 if nothing was gained, and closer to 2000 the smaller the output is.
-/

namespace CompressorBench

/-- The score of a case. Nothing compressed to nothing counts as no gain. -/
def score (inputSize compressedSize : Nat) : Float :=
  let input := Float.ofNat inputSize
  let compressed := Float.ofNat compressedSize
  if input + compressed == 0.0 then 1000.0
  else 1000.0 * (2.0 * input) / (input + compressed)

end CompressorBench
