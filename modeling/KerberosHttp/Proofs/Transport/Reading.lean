import KerberosHttp.Proofs.Soap.Message

/-!
# How a response arrives leaves no trace

A response is read piece by piece into buffers of any size.  A read that was
interrupted is repeated, a read that gives no octets is the end, and any other failure
ends the reading at once.  However the octets were cut, and however often a read was
interrupted, what comes of it is what the octets are as a message; and if the response
breaks off, its failure is all that comes of it, whatever the octets before it say.

## Strategy

`Stream.read` is one read and `Stream.collect` the loop around it.  `Stream.Gives` says
once what a read can do: every read that does not end the loop leaves a stream of less
`extent` whose octets, with those that were given, are the octets of the stream
(`gives_read`).  Both the end of the loop and its result (`collect_eq`) follow from that.
-/

namespace KerberosHttp

/-! ## Streams that are cut -/

/-- The octets that a read gives. -/
def Arrival.octets : Arrival → Bytes
  | data content => content
  | interrupted => []

namespace Stream

/-- A stream that gives some octets, in any pieces and with any interruptions. -/
structure Cuts (stream : Stream) (content : Bytes) : Prop where
  whole : stream.arrivals.flatMap Arrival.octets = content
  fine : stream.failure = none

theorem content_eq (arrivals : List Arrival) :
    Stream.content arrivals = arrivals.flatMap Arrival.octets := by
  induction arrivals with
  | nil => rfl
  | cons arrival rest ih =>
      cases arrival with
      | data content => rw [Stream.content, ih, List.flatMap_cons, Arrival.octets]
      | interrupted => rw [Stream.content, ih, List.flatMap_cons, Arrival.octets, List.nil_append]

theorem Cuts.readToEnd_eq {stream : Stream} {content : Bytes} (hcuts : stream.Cuts content) :
    stream.readToEnd = .ok content := by
  rw [Stream.readToEnd, hcuts.fine, ← hcuts.whole, ← Stream.content_eq]

theorem readToEnd_eq_error_iff {stream : Stream} {error : IoError} :
    stream.readToEnd = .error error ↔ stream.failure = some error := by
  rw [readToEnd]
  cases stream.failure with
  | none => simp
  | some cause => simp

/-! ## One read -/

/-- What one read into a buffer gives. -/
inductive Read
  /-- Octets, none of them only at the end -/
  | octets (content : Bytes)
  /-- Nothing: the read has to be repeated -/
  | interrupted
  | failed (error : IoError)

/-- The size of a buffer. -/
abbrev Room := { size : Nat // 0 < size }

/-- The first read of what arrives.  A piece without octets is passed over, since a read
that gives none would be the end, and what a buffer does not hold stays for the next. -/
def readFrom (room : Room) (failure : Option IoError) : List Arrival → Read × List Arrival
  | [] =>
    match failure with
    | none => (.octets [], [])
    | some error => (.failed error, [])
  | .interrupted :: rest => (.interrupted, rest)
  | .data [] :: rest => readFrom room failure rest
  | .data (first :: more) :: rest =>
    (.octets ((first :: more).take room), .data ((first :: more).drop room) :: rest)

/-- One read into a buffer, and the stream that is left. -/
def read (room : Room) (stream : Stream) : Read × Stream :=
  let (given, rest) := readFrom room stream.failure stream.arrivals
  (given, ⟨rest, stream.failure⟩)

/-- How much is to be read at most, in reads and in octets. -/
def extent (stream : Stream) : Nat :=
  stream.arrivals.length + (content stream.arrivals).length

/-- What a read of a stream can give, and what it leaves. -/
inductive Gives (stream : Stream) : Read × Stream → Prop
  | ended (rest : Stream) (hnone : content stream.arrivals = []) (hfine : stream.failure = none) :
      Gives stream (.octets [], rest)
  | octets (first : UInt8) (more : Bytes) (rest : Stream)
      (hwhole : content stream.arrivals = first :: more ++ content rest.arrivals)
      (hsame : rest.failure = stream.failure) (hless : rest.extent < stream.extent) :
      Gives stream (.octets (first :: more), rest)
  | interrupted (rest : Stream) (hwhole : content stream.arrivals = content rest.arrivals)
      (hsame : rest.failure = stream.failure) (hless : rest.extent < stream.extent) :
      Gives stream (.interrupted, rest)
  | failed (error : IoError) (rest : Stream) (hfailure : stream.failure = some error) :
      Gives stream (.failed error, rest)

theorem gives_read (room : Room) (stream : Stream) : Gives stream (stream.read room) := by
  obtain ⟨arrivals, failure⟩ := stream
  induction arrivals with
  | nil =>
      cases failure with
      | none => exact .ended _ rfl rfl
      | some error => exact .failed error _ rfl
  | cons arrival rest ih =>
      match arrival with
      | .interrupted => exact .interrupted _ rfl rfl (by simp [extent, content])
      | .data [] =>
          -- Without octets the read is that of what follows, in a stream of more extent.
          have hread : read room ⟨.data [] :: rest, failure⟩ = read room ⟨rest, failure⟩ := rfl
          have hextent : extent ⟨.data [] :: rest, failure⟩ = extent ⟨rest, failure⟩ + 1 := by
            simp only [extent, content, List.length_cons, List.nil_append]
            omega
          rw [hread]
          generalize read room ⟨rest, failure⟩ = given at ih
          cases ih with
          | ended left hnone hfine => exact .ended left hnone hfine
          | octets first more left hwhole hsame hless =>
              exact .octets first more left hwhole hsame (by omega)
          | interrupted left hwhole hsame hless => exact .interrupted left hwhole hsame (by omega)
          | failed error left hfailure => exact .failed error left hfailure
      | .data (first :: more) =>
          obtain ⟨size, hsize⟩ := room
          obtain ⟨size, rfl⟩ : ∃ less, size = less + 1 := ⟨size - 1, by omega⟩
          refine .octets first (more.take size) ⟨.data (more.drop size) :: rest, failure⟩ ?_ rfl ?_
          · simp only [content, List.cons_append, ← List.append_assoc, List.take_append_drop]
          · simp only [extent, content, List.length_cons, List.length_append, List.length_drop]
            omega

/-! ## The loop -/

/-- Reads a stream to its end, into one buffer after the other.  An interrupted read is
repeated; a read that gives nothing is the end. -/
def collect (rooms : Nat → Room) (stream : Stream) (before : Bytes) : Except IoError Bytes :=
  match hread : stream.read (rooms 0) with
  | (.octets [], _) => .ok before
  | (.octets (first :: more), rest) =>
    collect (fun index => rooms (index + 1)) rest (before ++ first :: more)
  | (.interrupted, rest) => collect (fun index => rooms (index + 1)) rest before
  | (.failed error, _) => .error error
termination_by stream.extent
decreasing_by
  all_goals
    have hgives := gives_read (rooms 0) stream
    rw [hread] at hgives
    cases hgives
    assumption

/-- Octets that were given before go before those that are still to come. -/
theorem readToEnd_map_append {stream rest : Stream} {given : Bytes} (before : Bytes)
    (hwhole : content stream.arrivals = given ++ content rest.arrivals)
    (hsame : rest.failure = stream.failure) :
    rest.readToEnd.map (before ++ given ++ ·) = stream.readToEnd.map (before ++ ·) := by
  rw [readToEnd, readToEnd, hsame]
  cases stream.failure with
  | none => simp only [Except.map, hwhole, List.append_assoc]
  | some error => rfl

/-- Whatever the buffers are, the loop gives what arrives, or the failure at the end. -/
theorem collect_eq (rooms : Nat → Room) (stream : Stream) (before : Bytes) :
    collect rooms stream before = stream.readToEnd.map (before ++ ·) := by
  fun_induction collect rooms stream before with
  | case1 rooms stream before rest hread =>
      have hgives := gives_read (rooms 0) stream
      rw [hread] at hgives
      cases hgives with
      | ended _ hnone hfine => simp only [readToEnd, hfine, Except.map, hnone, List.append_nil]
  | case2 rooms stream before first more rest hread ih =>
      have hgives := gives_read (rooms 0) stream
      rw [hread] at hgives
      cases hgives with
      | octets _ _ _ hwhole hsame => rw [ih, readToEnd_map_append before hwhole hsame]
  | case3 rooms stream before rest hread ih =>
      have hgives := gives_read (rooms 0) stream
      rw [hread] at hgives
      cases hgives with
      | interrupted _ hwhole hsame =>
          have hsplit := hwhole.trans (List.nil_append (content rest.arrivals)).symm
          rw [ih, ← readToEnd_map_append before hsplit hsame, List.append_nil]
  | case4 rooms stream before error rest hread =>
      have hgives := gives_read (rooms 0) stream
      rw [hread] at hgives
      cases hgives with
      | failed _ _ hfailure =>
          rw [readToEnd, hfailure]
          rfl

end Stream

/-! ## The message -/

namespace Soap.Message

/-- The message that a stream gives, read piece by piece. -/
def ofReads (version : Version) (rooms : Nat → Stream.Room) (stream : Stream) :
    Except MessageError Message :=
  match stream.collect rooms [] with
  | .ok content => ofBytes version content
  | .error error => .error (.io error)

/-- **How a response arrives leaves no trace.**  Read into buffers of whatever sizes, a
stream gives the message that it gives as a whole.  If it ends well, that is the message of
its octets, however they were cut and however often a read was interrupted.  If it breaks
off, it is that failure, whatever the octets before it say; and nothing else is ever a
failure to read. -/
theorem ofReads_eq (version : Version) (rooms : Nat → Stream.Room) (stream : Stream) :
    ofReads version rooms stream = ofStream version stream ∧
    (ofStream version stream =
      match stream.failure with
      | none => ofBytes version (stream.arrivals.flatMap Arrival.octets)
      | some error => .error (.io error)) ∧
    ∀ error, ofStream version stream = .error (.io error) ↔ stream.failure = some error := by
  have hcollect : stream.collect rooms [] = stream.readToEnd := by
    rw [Stream.collect_eq]
    cases stream.readToEnd <;> rfl
  refine ⟨?_, ?_, ?_⟩
  · rw [ofReads, hcollect]
    cases hread : stream.readToEnd with
    | ok content => exact (ofStream_eq_ofBytes hread).symm
    | error error => exact (ofStream_eq_io_iff.mpr hread).symm
  · cases hfailure : stream.failure with
    | none => exact ofStream_eq_ofBytes (Stream.Cuts.readToEnd_eq ⟨rfl, hfailure⟩)
    | some error =>
        exact ofStream_eq_io_iff.mpr (Stream.readToEnd_eq_error_iff.mpr hfailure)
  · intro error
    rw [ofStream_eq_io_iff, Stream.readToEnd_eq_error_iff]

end Soap.Message

end KerberosHttp
