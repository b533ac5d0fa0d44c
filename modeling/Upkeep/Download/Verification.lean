import Upkeep.Digest.Sha2
import Upkeep.Files

/-!
# Checking artifacts

The two things that the check of an artifact does to files: the file's digest is taken, in reads
of limited size, and a file that is not to be trusted is removed. How a file is cut into reads
does not matter to the digest.

## Main definitions

* `Verification.digestOfReads`, `Verification.fileDigest`.
* `Verification.discard`.
-/

namespace Upkeep.Verification

/-- The most that one read brings. -/
def readSize : Nat := 65536

/-- Some bytes in pieces of a size, the last of which may be shorter. -/
def pieces (size : Nat) (bytes : ByteArray) : List ByteArray :=
  (List.range ((bytes.size + size - 1) / size)).map fun i =>
    bytes.extract (i * size) ((i + 1) * size)

/-- The digest of what reads bring, one after the other. -/
def digestOfReads (algorithm : Digest.Variant) (reads : List ByteArray) : String :=
  (reads.foldl Digest.Hasher.take (Digest.Hasher.start algorithm)).finishHex

/-- The digest of a file, or why it cannot be read. -/
def fileDigest (fs : Files) (path : String) (algorithm : Digest.Variant) :
    Except String String :=
  match fs.read path with
  | .error cause => .error cause.text
  | .ok content => .ok (digestOfReads algorithm (pieces readSize content))

/-- Removes a file, when there is one. -/
def discard (fs : Files) (path : String) : Files :=
  match fs.remove path with
  | .ok fs => fs
  | .error _ => fs

end Upkeep.Verification
