import BrokerVariant.Cxx
import BrokerVariant.Object
import BrokerVariant.Variant
import BrokerVariant.Access
import BrokerVariant.Consistent
import BrokerVariant.Compare
import BrokerVariant.Visit
import BrokerVariant.Lifecycle
import BrokerVariant.Program
import BrokerVariant.Boxing
import BrokerVariant.Invisible
import BrokerVariant.Faults
import BrokerVariant.Safety
import BrokerVariant.Tagged
import BrokerVariant.Recursive
