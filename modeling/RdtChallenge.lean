import RdtChallenge.FileContents
import RdtChallenge.Corruption
import RdtChallenge.Completion
import RdtChallenge.SackCoverage
import RdtChallenge.ArrivalOrder
import RdtChallenge.Retransmission
import RdtChallenge.WireEncoding
import RdtChallenge.EventLoop
import RdtChallenge.Deadlines
import RdtChallenge.Checksum
import RdtChallenge.Liveness
import RdtChallenge.EndToEnd
import RdtChallenge.Shutdown
import RdtChallenge.FairTransfer
