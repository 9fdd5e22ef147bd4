import Miningcore.Foundation.Framing
import Miningcore.Stratum.ShareAcceptance

/-! `StratumClient`: how the bytes of a connection become requests.

The network delivers a stream in pieces. A read of the pipe gives what the last one left
of it together with what has arrived since. -/

namespace Miningcore.Stratum

open Framing

def maxInboundRequestLength : Nat := 0x8000

def endOfLine : UInt8 := 10

/-- What a client depends on: the encoding, the JSON serializer, the handler of the
requests, the classes of the framework that read an endpoint, and whether a header of the
proxy protocol is mandatory. -/
structure ClientEnvironment (Server Request EndPoint : Type) where
  getString : List UInt8 → Text
  deserialize : Text → Except Exception (Option Request)
  onNext : Server → Request → Server × Except Exception Unit
  parseEndPoint : Text → Text → Except Exception EndPoint
  mandatory : Bool

/-- A client, with the state that its requests work on. The lines it has handed on to be
processed as requests are history, the oldest first. -/
structure StratumClient (Server EndPoint : Type) where
  isAlive : Bool := true
  expectingProxyHeader : Bool
  remoteEndpoint : EndPoint
  server : Server
  dispatched : List Text := []

/-- How `ProcessReceivePipeAsync` ends: with the stream, with more data than the maximum, or
with an exception on a line. -/
inductive Ending
  | completed
  | exceedsMaximum
  | thrown (exception : Exception)
deriving DecidableEq

namespace StratumClient

variable {Server Request EndPoint : Type} (environment : ClientEnvironment Server Request EndPoint)

def disconnect (client : StratumClient Server EndPoint) : StratumClient Server EndPoint :=
  { client with isAlive := false }

/-- `HandleProxyHeader`. The result says if the line was consumed. -/
def handleProxyHeader (client : StratumClient Server EndPoint) (line : Text) :
    StratumClient Server EndPoint × Except Exception Bool :=
  let client := { client with expectingProxyHeader := false }
  if (text "PROXY ").isPrefixOf line then
    match (line.split 32)[2]?, (line.split 32)[4]? with
    | some remoteAddress, some remotePort =>
        match environment.parseEndPoint remoteAddress remotePort with
        | .ok remoteEndpoint => ({ client with remoteEndpoint }, .ok true)
        | .error exception => (client, .error exception)
    | _, _ => (client, .error .indexOutOfRange)
  else if environment.mandatory then
    (client, .error (.exception "Missing mandatory Proxy-Protocol header"))
  else (client, .ok false)

def processRequest (client : StratumClient Server EndPoint) (json : Text) :
    StratumClient Server EndPoint × Except Exception Unit :=
  let client := { client with dispatched := client.dispatched ++ [json] }
  match environment.deserialize json with
  | .error exception => (client, .error exception)
  | .ok none => (client.disconnect, .error (.exception "Unable to deserialize request"))
  | .ok (some request) =>
      let (server, result) := environment.onNext client.server request
      ({ client with server }, result)

def processLine (client : StratumClient Server EndPoint) (slice : List UInt8) :
    StratumClient Server EndPoint × Except Exception Unit :=
  let line := environment.getString slice
  if client.expectingProxyHeader then
    match handleProxyHeader environment client line with
    | (client, .error exception) => (client, .error exception)
    | (client, .ok true) => (client, .ok ())
    | (client, .ok false) => processRequest environment client line
  else processRequest environment client line

def processBuffer (client : StratumClient Server EndPoint) (buffer : List UInt8) :
    StratumClient Server EndPoint × Except Exception (List UInt8) :=
  match _found : buffer.idxOf? endOfLine with
  | none => (client, .ok buffer)
  | some position =>
      match processLine environment client (buffer.take position) with
      | (client, .error exception) => (client, .error exception)
      | (client, .ok ()) => processBuffer client (buffer.drop (position + 1))
termination_by buffer.length
decreasing_by
  have inside := (eq_of_idxOf? _found).1
  rw [List.length_drop]
  omega

/-- `ProcessReceivePipeAsync`, from a buffer on. Each element of the list is what has
arrived when the pipe is read again. -/
def processReceivePipe (client : StratumClient Server EndPoint) (buffer : List UInt8) :
    List (List UInt8) → StratumClient Server EndPoint × Ending
  | [] => (client, .completed)
  | arrived :: reads =>
      if maxInboundRequestLength < (buffer ++ arrived).length then
        (client.disconnect, .exceedsMaximum)
      else
        match processBuffer environment client (buffer ++ arrived) with
        | (client, .error exception) => (client, .thrown exception)
        | (client, .ok rest) => processReceivePipe client rest reads

/-! ## The lines of a stream -/

/-- The lines of a stream one after the other, until one throws. -/
def processLines (client : StratumClient Server EndPoint) :
    List (List UInt8) → StratumClient Server EndPoint × Except Exception Unit
  | [] => (client, .ok ())
  | line :: lines =>
      match processLine environment client line with
      | (client, .error exception) => (client, .error exception)
      | (client, .ok ()) => processLines client lines

def processStream (client : StratumClient Server EndPoint) (stream : List UInt8) :
    StratumClient Server EndPoint × Ending :=
  match processLines environment client (frames endOfLine stream) with
  | (client, .error exception) => (client, .thrown exception)
  | (client, .ok ()) => (client, .completed)

/-- Each time the pipe is read, what is left of the lines before fits together with what
has arrived since. -/
def ReadsFit (client : StratumClient Server EndPoint) (reads : List (List UInt8)) : Prop :=
  ∀ front arrived, front ++ [arrived] <+: reads →
    (processLines environment client (frames endOfLine front.flatten)).2 = .ok () →
    (unfinished endOfLine front.flatten ++ arrived).length ≤ maxInboundRequestLength

theorem processLines_append (client : StratumClient Server EndPoint)
    (front back : List (List UInt8)) :
    processLines environment client (front ++ back) =
      match processLines environment client front with
      | (client, .error exception) => (client, .error exception)
      | (client, .ok ()) => processLines environment client back := by
  induction front generalizing client with
  | nil => rfl
  | cons line front induction =>
      simp only [List.cons_append, processLines]
      cases processLine environment client line with
      | mk next result =>
          cases result with
          | error exception => rfl
          | ok done => exact induction next

theorem processBuffer_eq (client : StratumClient Server EndPoint) (buffer : List UInt8) :
    processBuffer environment client buffer =
      match processLines environment client (frames endOfLine buffer) with
      | (client, .error exception) => (client, .error exception)
      | (client, .ok ()) => (client, .ok (unfinished endOfLine buffer)) := by
  fun_induction processBuffer environment client buffer with
  | case1 client buffer absent =>
      have alone := from_of_not_mem (List.idxOf?_eq_none_iff.mp absent) []
      rw [frames, unfinished, alone.1, alone.2]
      rfl
  | case2 client buffer position found next exception thrown =>
      rw [(frames_of_idxOf? found).1, processLines, thrown]
  | case3 client buffer position found next processed induction =>
      rw [induction, (frames_of_idxOf? found).1, (frames_of_idxOf? found).2, processLines,
        processed]

theorem processRequest_dispatched (client : StratumClient Server EndPoint) (json : Text) :
    (processRequest environment client json).1.dispatched = client.dispatched ++ [json] ∧
      (processRequest environment client json).1.expectingProxyHeader =
        client.expectingProxyHeader := by
  rw [processRequest]
  split
  · exact ⟨rfl, rfl⟩
  · exact ⟨rfl, rfl⟩
  · exact ⟨rfl, rfl⟩

theorem processLines_dispatched {client next : StratumClient Server EndPoint}
    {lines : List (List UInt8)} (noHeader : client.expectingProxyHeader = false)
    (processed : processLines environment client lines = (next, .ok ())) :
    next.dispatched = client.dispatched ++ lines.map environment.getString := by
  induction lines generalizing client with
  | nil =>
      cases processed
      rw [List.map_nil, List.append_nil]
  | cons line lines induction =>
      have handedOn := processRequest_dispatched environment client (environment.getString line)
      simp only [processLines, processLine, noHeader, Bool.false_eq_true, if_false] at processed
      split at processed
      · cases processed
      · rename_i after isProcessed
        rw [isProcessed] at handedOn
        rw [induction (handedOn.2.trans noHeader) processed, handedOn.1, List.append_assoc]
        rfl

theorem processStream_ending (client : StratumClient Server EndPoint) (stream : List UInt8) :
    (processStream environment client stream).2 ≠ .exceedsMaximum := by
  intro exceeds
  rw [processStream] at exceeds
  split at exceeds
  · cases exceeds
  · cases exceeds

theorem processReceivePipe_from_iff {client next : StratumClient Server EndPoint}
    {seen : List UInt8} (reads : List (List UInt8))
    (processed : processLines environment client (frames endOfLine seen) = (next, .ok ())) :
    processReceivePipe environment next (unfinished endOfLine seen) reads =
        processStream environment client (seen ++ reads.flatten) ↔
      ∀ front arrived, front ++ [arrived] <+: reads →
        (processLines environment client (frames endOfLine (seen ++ front.flatten))).2 = .ok () →
        (unfinished endOfLine (seen ++ front.flatten) ++ arrived).length ≤
          maxInboundRequestLength := by
  induction reads generalizing next seen with
  | nil =>
      constructor
      · intro _ front arrived isPrefix
        have absurdLength := isPrefix.length_le
        simp at absurdLength
      · intro _
        rw [List.flatten_nil, List.append_nil, processStream, processed]
        rfl
  | cons arrived reads induction =>
      have again : processLines environment client (frames endOfLine (seen ++ arrived)) =
          processLines environment next
            (frames endOfLine (unfinished endOfLine seen ++ arrived)) := by
        rw [frames_append, processLines_append, processed]
      have flattened : ∀ front : List (List UInt8),
          seen ++ (arrived :: front).flatten = seen ++ arrived ++ front.flatten := by
        intro front
        rw [List.flatten_cons, List.append_assoc]
      rw [forall_reads_cons, processReceivePipe]
      simp only [flattened, List.flatten_nil, List.append_nil, processed, forall_const]
      split_ifs with exceeds
      · apply iff_of_false
        · intro same
          exact processStream_ending environment client _ (congrArg Prod.snd same).symm
        · intro fits
          exact absurd fits.1 (Nat.not_le.mpr exceeds)
      · rw [processBuffer_eq, ← again, ← unfinished_append]
        have fits := Nat.not_lt.mp exceeds
        cases processedAll : processLines environment client
          (frames endOfLine (seen ++ arrived)) with
        | mk after result =>
            cases result with
            | error exception =>
                -- The line that throws ends both, and no further read counts.
                have throws : ∀ more : List UInt8, processLines environment client
                    (frames endOfLine (seen ++ arrived ++ more)) = (after, .error exception) := by
                  intro more
                  rw [frames_append, processLines_append, processedAll]
                apply iff_of_true
                · rw [processStream, throws]
                · refine ⟨fits, ?_⟩
                  intro front later _ impossible
                  rw [throws] at impossible
                  cases impossible
            | ok done =>
                rw [and_iff_right fits]
                exact induction processedAll

theorem processLines_nil (client : StratumClient Server EndPoint) :
    processLines environment client (frames endOfLine []) = (client, .ok ()) := rfl

theorem processReceivePipe_of_lines (client : StratumClient Server EndPoint)
    {reads : List (List UInt8)}
    (areLines : ∀ read ∈ reads, ∃ line, endOfLine ∉ line ∧ read = line ++ [endOfLine])
    (fit : ∀ read ∈ reads, read.length ≤ maxInboundRequestLength) :
    processReceivePipe environment client [] reads =
      processStream environment client reads.flatten := by
  apply (processReceivePipe_from_iff environment reads (processLines_nil environment client)).mpr
  intro front arrived isPrefix _
  rw [List.nil_append]
  have nothingLeft : unfinished endOfLine front.flatten = [] := by
    apply unfinished_flatten
    intro read member
    exact areLines read (isPrefix.subset (List.mem_append_left _ member))
  rw [nothingLeft]
  exact fit arrived (isPrefix.subset (List.mem_append_right _ List.mem_cons_self))

/-- However the stream of a connection is cut into reads: its lines are handed on in order,
each once, and nothing else ends the connection, exactly if at each read what is left of
the lines before fits together with what has arrived. -/
theorem processReceivePipe_iff (client : StratumClient Server EndPoint)
    (reads : List (List UInt8)) :
    processReceivePipe environment client [] reads =
        processStream environment client reads.flatten ↔
      ReadsFit environment client reads :=
  processReceivePipe_from_iff environment reads (processLines_nil environment client)

/-- An environment in which a line is a request, and the server keeps the requests. -/
def recording : ClientEnvironment (List Text) Text Unit where
  getString := List.map UInt8.toUInt16
  deserialize json := .ok (some json)
  onNext server request := (server ++ [request], .ok ())
  parseEndPoint _ _ := .ok ()
  mandatory := false

/-- Two lines of sixteen kilobytes are two requests if they arrive one after the other; if
they arrive together, the client is disconnected. -/
theorem processReceivePipe_coalesced :
    let client : StratumClient (List Text) Unit := {
      expectingProxyHeader := false, remoteEndpoint := (), server := [] }
    let first : List UInt8 := List.replicate 0x4000 32
    let second : List UInt8 := List.replicate 0x3fff 32
    let stream := first ++ endOfLine :: (second ++ [endOfLine])
    (∀ line ∈ frames endOfLine stream, line.length ≤ maxInboundRequestLength) ∧
      processReceivePipe recording client [] [first ++ [endOfLine], second ++ [endOfLine]] =
        processStream recording client stream ∧
      processReceivePipe recording client [] [stream] =
        ({ client with isAlive := false }, .exceedsMaximum) ∧
      processReceivePipe recording client [] [stream] ≠ processStream recording client stream := by
  intro client first second stream
  have notInFirst : endOfLine ∉ first := by
    intro member
    exact absurd (List.eq_of_mem_replicate member) (by decide)
  have notInSecond : endOfLine ∉ second := by
    intro member
    exact absurd (List.eq_of_mem_replicate member) (by decide)
  have isFrames : frames endOfLine stream = [first, second] := by
    rw [frames_cons notInFirst, frames_cons notInSecond]
    rfl
  have exceeds : processReceivePipe recording client [] [stream] =
      (client.disconnect, .exceedsMaximum) := by
    rw [processReceivePipe, if_pos]
    rw [List.nil_append, List.length_append, List.length_cons, List.length_append,
      List.length_replicate, List.length_replicate]
    decide
  refine ⟨?_, ?_, exceeds, ?_⟩
  · intro line member
    rw [isFrames, List.mem_pair] at member
    rcases member with rfl | rfl
    · rw [List.length_replicate]
      decide
    · rw [List.length_replicate]
      decide
  · have isStream : stream = [first ++ [endOfLine], second ++ [endOfLine]].flatten := by
      simp [stream]
    rw [isStream]
    apply processReceivePipe_of_lines
    · intro read member
      rcases List.mem_pair.mp member with rfl | rfl
      · exact ⟨first, notInFirst, rfl⟩
      · exact ⟨second, notInSecond, rfl⟩
    · intro read member
      rcases List.mem_pair.mp member with rfl | rfl
      · rw [List.length_append, List.length_replicate]
        decide
      · rw [List.length_append, List.length_replicate]
        decide
  · rw [exceeds]
    intro same
    exact processStream_ending recording client stream (congrArg Prod.snd same).symm

end StratumClient

end Miningcore.Stratum
