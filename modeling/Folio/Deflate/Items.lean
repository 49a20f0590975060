import Folio.Deflate.Alphabet

/-!
# Finding copies

An encoder looks for earlier data that it can copy. It remembers where three bytes like the next
ones were seen before, follows these places back, and takes the longest copy. A copy may wait until
it is clear that none that starts one byte later is longer. At the lowest level the encoder looks at
a single place only.

## Main definitions

* `Effort` — how hard an encoder searches
* `placesBefore` — the places that it remembers
* `Target`, `Target.longerCopy?` — a place, and the longest copy for it
* `findItems`, `findItemsQuickly` — literals and copies that make up the data
-/

namespace Folio.Deflate

/-- The shortest copy. -/
def minCopy : Nat := 3

/-- The longest copy. -/
def maxCopy : Nat := 258

/-- Places are remembered up to multiples of this number. -/
def placeCount : Nat := 65536

/-- From this distance on the shortest copies are not worth it. -/
def farDistance : Nat := 8192

/-- From this length on a copy does not wait for a longer one. -/
def longCopy : Nat := 128

/-- How far the bytes from two places on agree, up to `limit` bytes and behind `found` of them. -/
def commonLength (data : ByteArray) (i j : Nat) : (limit found : Nat) → Nat
  | 0, found => found
  | limit + 1, found =>
    if data.get! i == data.get! j then commonLength data (i + 1) (j + 1) limit (found + 1)
    else found

/-- A copy. -/
structure Copy where
  /-- The number of bytes. -/
  length : Nat
  /-- How far back the bytes are. -/
  distance : Nat
deriving DecidableEq, Repr

/-- A copy as an item. -/
def Copy.item (c : Copy) : Item := .copy c.length c.distance

/-- Whether a copy takes fewer bits than its bytes. -/
def Copy.isWorthIt (c : Copy) : Bool := minCopy < c.length || c.distance < farDistance

/-! ### A thorough search -/

/-- How hard an encoder searches for a copy. -/
structure Effort where
  /-- About how many places it looks at. -/
  places : Nat
  /-- Whether a copy waits for a longer one. -/
  patient : Bool
deriving DecidableEq, Repr

/-- How hard an encoder searches at a level. -/
def Effort.ofLevel (level : Nat) : Effort :=
  match level with
  | 2 => ⟨6, false⟩
  | 3 => ⟨32, false⟩
  | 4 => ⟨16, true⟩
  | 5 => ⟨32, true⟩
  | 6 => ⟨128, true⟩
  | 7 => ⟨256, true⟩
  | 8 => ⟨512, true⟩
  | _ => ⟨768, true⟩

/-- How often an encoder goes on to look for a copy that is longer than `length`. It takes it easier
when it has a copy that is long enough. -/
def Effort.rounds (e : Effort) (length : Nat) : Nat :=
  ((if 32 ≤ length then e.places / 4 else e.places) + 2) / 3

/-- The number of buckets. -/
def bucketCount : Nat := 32768

/-- A number for the three bytes at a place, below the number of buckets. -/
def bucket (data : ByteArray) (i : Nat) : Nat :=
  ((data.get! i).toNat * 1024 ^^^ (data.get! (i + 1)).toNat * 32 ^^^ (data.get! (i + 2)).toNat)
    % bucketCount

/-- For every place the last one before it whose bytes have the same number. Zero stands for none,
and so the first place is never looked at, nor are places that are remembered as the first one. -/
def placesBefore (data : ByteArray) : Array Nat := Id.run do
  let mut latest := Array.replicate bucketCount 0
  let mut before := Array.replicate data.size 0
  for i in [0:data.size - 2] do
    let b := bucket data i
    before := before.setIfInBounds i (latest.getD b 0)
    latest := latest.setIfInBounds b i
  return before

/-- A place for which a copy is sought. -/
structure Target where
  data : ByteArray
  /-- For every place the one to look at behind it. -/
  before : Array Nat
  place : Nat

namespace Target

/-- The longest copy that there can be. -/
def limit (t : Target) : Nat := min maxCopy (t.data.size - t.place)

/-- The furthest that a copy can reach back, as the bytes that it may make up take room in the
window. -/
def reach (t : Target) : Nat := windowSize - t.limit

/-- Whether the last byte of a copy of `length` bytes from place `j`, and the byte behind it, are
those of the target. -/
def agreesAt (t : Target) (j length : Nat) : Bool :=
  t.data.get! (j + length - 1) == t.data.get! (t.place + length - 1)
    && t.data.get! (j + length) == t.data.get! (t.place + length)

/-- Follows the places before `j`, up to `tries` of them, to one where a copy may be longer than
`length`. The answer is the place, and whether it is such a one, or `none` if there are no more
places. -/
def follow (t : Target) (length : Nat) : (tries j : Nat) → Option (Nat × Bool)
  | 0, j => some (j, false)
  | tries + 1, j =>
    let earlier := t.before.getD j 0
    let distance := (t.place - earlier) % placeCount
    let place := t.place - distance
    if earlier % placeCount = 0 || distance = 0 || t.reach < distance then none
    else if t.agreesAt place length then some (place, true)
    else t.follow length tries place

/-- The longest copy from a place before `j` that is longer than `length` bytes, or `best` if there
is none. Every round looks at up to three places. -/
def longest (t : Target) : (rounds j length : Nat) → (best : Option Copy) → Option Copy
  | 0, _, _, best => best
  | rounds + 1, j, length, best =>
    match t.follow length 3 j with
    | none => best
    | some (j, mayBeLonger) =>
      let found := if mayBeLonger then commonLength t.data t.place j t.limit 0 else 0
      if found ≤ length then t.longest rounds j length best
      else if t.limit ≤ found then some ⟨found, t.place - j⟩
      else t.longest rounds j found (some ⟨found, t.place - j⟩)

/-- The longest copy that is longer than `length` bytes, if it is worth it and does not start where
the window does. -/
def longerCopy? (t : Target) (effort : Effort) (length : Nat) : Option Copy :=
  if t.limit ≤ length then none
  else (t.longest (effort.rounds length) t.place length none).filter fun copy =>
    copy.isWorthIt && (t.place - copy.distance) % windowSize ≠ 0

end Target

/-- Adds literals and copies that make up the data from place `i` on. `waiting` is a copy for the
byte before, which counts unless a longer one is found. `fuel` bounds the number of steps. -/
def findItemsFrom (data : ByteArray) (before : Array Nat) (effort : Effort) :
    (fuel i : Nat) → (waiting : Option Copy) → (items : Array Item) → Array Item
  | 0, _, _, items => items
  | fuel + 1, i, waiting, items =>
    if data.size ≤ i then items
    else
      let length := (waiting.map Copy.length).getD (minCopy - 1)
      match waiting, (Target.mk data before i).longerCopy? effort length with
      | none, none =>
        findItemsFrom data before effort fuel (i + 1) none (items.push (.literal (data.get! i)))
      | some copy, none =>
        findItemsFrom data before effort fuel (i - 1 + copy.length) none (items.push copy.item)
      | waiting, some copy =>
        let items := if waiting.isSome then items.push (.literal (data.get! (i - 1))) else items
        if effort.patient && copy.length < longCopy then
          findItemsFrom data before effort fuel (i + 1) (some copy) items
        else
          findItemsFrom data before effort fuel (i + copy.length) none (items.push copy.item)

/-- Literals and copies that make up the data. -/
def findItems (effort : Effort) (data : ByteArray) : Array Item :=
  findItemsFrom data (placesBefore data) effort (data.size + 1) 0 none #[]

/-! ### A quick search -/

/-- The data is searched in stretches of this size, and no copy goes on in the next one. -/
def stretchSize : Nat := 4096

/-- A number for the three bytes at a place, for the quick search. -/
def quickBucket (data : ByteArray) (i : Nat) : Nat :=
  let bytes := (data.get! i).toNat + (data.get! (i + 1)).toNat * 256
    + (data.get! (i + 2)).toNat * 65536
  (bytes ^^^ bytes / 131072) % stretchSize

/-- The copy for place `i` from the place that is remembered as `j`, where `left` bytes are left of
the stretch. -/
def quickCopy? (data : ByteArray) (i j left : Nat) : Option Copy :=
  let distance := (i - j) % placeCount
  if distance = 0 || windowSize - left < distance then none
  else
    let copy := Copy.mk (commonLength data i (i - distance) (min maxCopy left) 0) distance
    if minCopy ≤ copy.length && copy.isWorthIt then some copy else none

/-- Adds literals and copies that make up the data from place `i` on. `latest` holds the last places
at which bytes of each number were looked for. `fuel` bounds the number of steps. -/
def findItemsQuicklyFrom (data : ByteArray) :
    (fuel i : Nat) → (latest : Array Nat) → (items : Array Item) → Array Item
  | 0, _, _, items => items
  | fuel + 1, i, latest, items =>
    if data.size ≤ i then items
    else
      let left := min data.size ((i / stretchSize + 1) * stretchSize) - i
      if left ≤ minCopy then
        findItemsQuicklyFrom data fuel (i + 1) latest (items.push (.literal (data.get! i)))
      else
        let b := quickBucket data i
        let found := quickCopy? data i (latest.getD b 0) left
        let item := (found.map Copy.item).getD (.literal (data.get! i))
        findItemsQuicklyFrom data fuel (i + (found.map Copy.length).getD 1)
          (latest.setIfInBounds b i) (items.push item)

/-- Literals and copies that make up the data, found with a single look for each. -/
def findItemsQuickly (data : ByteArray) : Array Item :=
  findItemsQuicklyFrom data (data.size + 1) 0 (Array.replicate stretchSize 0) #[]

end Folio.Deflate
