import Serval.ServiceDelDev
import Serval.ServiceShape
import Serval.BstIterator
import Serval.ServiceModify
import Serval.ServiceStats
import Serval.SalRttBounds
import Serval.SalReplay
import Serval.SalNonce
import Serval.SalSynackRetry
import Serval.SalNumbering
import Serval.SalPendingRsyn
import Serval.SalPendingFin
import Serval.SalMoving
import Serval.SalAgreement
import Serval.SalReset
import Serval.SockBind
import Serval.SalQueues
import Serval.UserTimer
import Serval.TranslatorEof
import Serval.ClientRequest
import Serval.ClientCalls
import Serval.ServiceLocks
import Serval.DelayRelease
import Serval.SalRetransmission
import Serval.SalRequestTimeout
import Serval.HexText
import Serval.IfaceMigration
