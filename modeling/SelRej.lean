import SelRej.CInt
import SelRej.CircularArray
import SelRej.Emit
import SelRej.PartialRun
import SelRej.ReorderBuffer
import SelRej.Chunks
import SelRej.Pdu
import SelRej.OnesComplement
import SelRej.PduCodec
import SelRej.Window
import SelRej.ServerWindow
import SelRej.ServerCalls
import SelRej.Rcopy
import SelRej.ReceiveWindow
import SelRej.RcopyRefinement
import SelRej.RcopyRuns
import SelRej.StoredWrites
import SelRej.BufferCalls
import SelRej.Server
import SelRej.ServerTransfer
import SelRej.PromptTransfer
import SelRej.Transfer
import SelRej.TransferInvariant
import SelRej.TransferSafety
import SelRej.ClosingLoop
import SelRej.TransferProgress
import SelRej.LosslessTransfer
import SelRej.Setup
import SelRej.SetupAgreement
import SelRej.DatagramFaults
import SelRej.ControlPackets
import SelRej.Retransmission
import SelRej.Rejection
import SelRej.ReceiveLengths
import SelRej.Handshake
import SelRej.ServerAnswers
import SelRej.CheckedInt
import SelRej.CheckedWindow
import SelRej.Connection
import SelRej.Session
import SelRej.SessionSteps
import SelRej.SessionSafety
import SelRej.SessionProgress
import SelRej.SessionRefinement
import SelRej.SessionSilence
import SelRej.Heap
import SelRej.Memory
import SelRej.MemoryOwnership
import SelRej.MemoryRefinement
import SelRej.MemoryReleased
import SelRej.PollSet
import SelRej.ErrorSimulator
import SelRej.SimulatedSession
